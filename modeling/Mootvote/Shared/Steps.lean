import Mathlib.Data.Fin.Basic
import Mathlib.Data.List.OfFn
import Mathlib.Data.List.Induction

set_option autoImplicit false

namespace Shared

variable {S E : Type}

inductive Steps (step : S → E → S → Prop) : S → List E → S → Prop
  | nil (s : S) : Steps step s [] s
  | cons {s mid s' : S} {e : E} {es : List E} :
      step s e mid → Steps step mid es s' → Steps step s (e :: es) s'

namespace Steps

variable {step : S → E → S → Prop}

theorem nil_iff {s s' : S} : Steps step s [] s' ↔ s = s' := by
  constructor
  · intro run
    cases run
    rfl
  · rintro rfl
    exact .nil s

theorem cons_iff {s s' : S} {e : E} {es : List E} :
    Steps step s (e :: es) s' ↔ ∃ mid, step s e mid ∧ Steps step mid es s' := by
  constructor
  · intro run
    cases run with
    | cons first rest => exact ⟨_, first, rest⟩
  · rintro ⟨mid, first, rest⟩
    exact .cons first rest

theorem append_iff {s s' : S} {es fs : List E} :
    Steps step s (es ++ fs) s' ↔ ∃ mid, Steps step s es mid ∧ Steps step mid fs s' := by
  induction es generalizing s with
  | nil => simp [nil_iff]
  | cons e es ih =>
      simp only [List.cons_append, cons_iff, ih]
      constructor
      · rintro ⟨mid, first, mid', middle, rest⟩
        exact ⟨mid', ⟨mid, first, middle⟩, rest⟩
      · rintro ⟨mid', ⟨mid, first, middle⟩, rest⟩
        exact ⟨mid, first, mid', middle, rest⟩

theorem snoc_iff {s s' : S} {e : E} {es : List E} :
    Steps step s (es ++ [e]) s' ↔ ∃ mid, Steps step s es mid ∧ step mid e s' := by
  simp [append_iff, cons_iff, nil_iff]

theorem snoc {s mid s' : S} {e : E} {es : List E} (run : Steps step s es mid) (last : step mid e s') :
    Steps step s (es ++ [e]) s' := snoc_iff.2 ⟨mid, run, last⟩

theorem mono {step' : S → E → S → Prop} {s s' : S} {es : List E} (run : Steps step s es s')
    (weaken : ∀ s e s', e ∈ es → step s e s' → step' s e s') : Steps step' s es s' := by
  induction run with
  | nil => exact .nil _
  | cons first rest ih =>
      exact .cons (weaken _ _ _ (by simp) first) (ih fun s e s' member => weaken s e s' (by simp [member]))

theorem step_of_mem {s s' : S} {e : E} {es : List E} (run : Steps step s es s') (member : e ∈ es) :
    ∃ before after, step before e after := by
  induction run with
  | nil => simp at member
  | cons first rest ih =>
      rcases List.mem_cons.1 member with rfl | later
      · exact ⟨_, _, first⟩
      · exact ih later

/-- An invariant of the state and of the labels so far that every step keeps holds after a run. -/
theorem invariant {I : List E → S → Prop} {s s' : S} {es : List E} (run : Steps step s es s')
    (initial : I [] s) (keep : ∀ past s e s', e ∈ es → I past s → step s e s' → I (past ++ [e]) s') :
    I es s' := by
  induction es using List.reverseRecOn generalizing s' with
  | nil =>
      rw [← nil_iff.1 run]
      exact initial
  | append_singleton past e ih =>
      obtain ⟨mid, front, last⟩ := snoc_iff.1 run
      have before := ih front fun past s e s' member => keep past s e s' (List.mem_append_left _ member)
      exact keep past mid e s' (by simp) before last

theorem ofFn {n : Nat} (state : Fin (n + 1) → S) (label : Fin n → E)
    (joined : ∀ i, step (state i.castSucc) (label i) (state i.succ)) :
    Steps step (state 0) (List.ofFn label) (state (Fin.last n)) := by
  induction n with
  | zero => exact .nil _
  | succ n ih =>
      rw [List.ofFn_succ]
      exact .cons (joined 0) (ih (fun i => state i.succ) (fun i => label i.succ) fun i => joined i.succ)

theorem replicate {s : S} {e : E} (loop : step s e s) (n : Nat) : Steps step s (List.replicate n e) s := by
  induction n with
  | zero => exact .nil s
  | succ n ih => exact .cons loop ih

theorem exists_states {n : Nat} {label : Fin n → E} {s s' : S} (run : Steps step s (List.ofFn label) s') :
    ∃ state : Fin (n + 1) → S, state 0 = s ∧ state (Fin.last n) = s' ∧
      ∀ i, step (state i.castSucc) (label i) (state i.succ) := by
  induction n generalizing s with
  | zero => exact ⟨fun _ => s, rfl, nil_iff.1 run, fun i => i.elim0⟩
  | succ n ih =>
      rw [List.ofFn_succ] at run
      obtain ⟨mid, first, rest⟩ := cons_iff.1 run
      obtain ⟨state, start, final, joined⟩ := ih rest
      refine ⟨Fin.cons s state, rfl, ?_, fun i => ?_⟩
      · rw [← Fin.succ_last, Fin.cons_succ]
        exact final
      · cases i using Fin.cases with
        | zero =>
            rw [Fin.cons_succ, start]
            exact first
        | succ i =>
            rw [← Fin.succ_castSucc, Fin.cons_succ, Fin.cons_succ]
            exact joined i

end Steps

end Shared
