import Mootvote.Shared.Steps

set_option autoImplicit false

namespace Shared

variable {Error A B S X : Type} {e : Error}

theorem bind_ok_iff {m : Except Error A} {f : A → Except Error B} {b : B} :
    (m >>= f) = .ok b ↔ ∃ a, m = .ok a ∧ f a = .ok b := by
  cases m with
  | error e => simp [bind, Except.bind]
  | ok a => simp [bind, Except.bind]

theorem bind_error_iff {m : Except Error A} {f : A → Except Error B} :
    (m >>= f) = .error e ↔ m = .error e ∨ ∃ a, m = .ok a ∧ f a = .error e := by
  cases m with
  | error e' => simp [bind, Except.bind]
  | ok a => simp [bind, Except.bind]

theorem foldlM_ok_iff {f : S → X → Except Error S} {xs : List X} {s s' : S} :
    xs.foldlM f s = .ok s' ↔ Steps (fun s x s' => f s x = .ok s') s xs s' := by
  induction xs generalizing s with
  | nil =>
      rw [Steps.nil_iff, List.foldlM_nil]
      exact Except.ok.injEq s s' ▸ Iff.rfl
  | cons x xs ih =>
      rw [List.foldlM_cons, bind_ok_iff, Steps.cons_iff]
      simp only [ih]

/-- A loop fails in the turn that fails. -/
theorem foldlM_error {f : S → X → Except Error S} {xs : List X} {s : S} (failed : xs.foldlM f s = .error e) :
    ∃ past x rest mid, xs = past ++ x :: rest ∧ Steps (fun s x s' => f s x = .ok s') s past mid ∧
      f mid x = .error e := by
  induction xs generalizing s with
  | nil => cases failed
  | cons x xs ih =>
      rw [List.foldlM_cons, bind_error_iff] at failed
      rcases failed with here | ⟨mid, first, later⟩
      · exact ⟨[], x, xs, s, rfl, .nil s, here⟩
      · obtain ⟨past, y, rest, mid', rfl, run, failed⟩ := ih later
        exact ⟨x :: past, y, rest, mid', rfl, .cons first run, failed⟩

end Shared
