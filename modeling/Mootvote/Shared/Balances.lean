import Mathlib.Algebra.BigOperators.Group.Finset.Basic
import Mathlib.Algebra.Order.BigOperators.Group.Finset
import Mathlib.Algebra.Order.Group.Nat

set_option autoImplicit false

/-!
# Balances

What finitely many accounts hold, moved between them.
-/

namespace Shared.Balances

variable {A : Type} {b b' b'' : A → Nat} {touched touchedNext : Finset A}

/-- Nothing is made or lost: what the touched accounts hold only moves between them. -/
structure Moved (touched : Finset A) (b b' : A → Nat) : Prop where
  same : ∀ a ∉ touched, b' a = b a
  sum : touched.sum b' = touched.sum b

theorem Moved.refl (b : A → Nat) : Moved ∅ b b := ⟨fun _ _ => rfl, rfl⟩

variable [DecidableEq A]

def move (b : A → Nat) (source destination : A) (amount : Nat) : A → Nat :=
  let taken := Function.update b source (b source - amount)
  Function.update taken destination (taken destination + amount)

namespace Moved

theorem mono (moved : Moved touched b b') (more : touched ⊆ touchedNext) : Moved touchedNext b b' := by
  constructor
  · intro a outside
    exact moved.same a fun inside => outside (more inside)
  · have rest : (touchedNext \ touched).sum b' = (touchedNext \ touched).sum b :=
      Finset.sum_congr rfl fun a member => moved.same a (Finset.mem_sdiff.1 member).2
    rw [← Finset.sum_sdiff more, ← Finset.sum_sdiff (f := b) more, rest, moved.sum]

theorem trans (first : Moved touched b b') (second : Moved touchedNext b' b'') :
    Moved (touched ∪ touchedNext) b b'' := by
  have first' : Moved (touched ∪ touchedNext) b b' := first.mono Finset.subset_union_left
  have second' : Moved (touched ∪ touchedNext) b' b'' := second.mono Finset.subset_union_right
  constructor
  · intro a outside
    rw [second'.same a outside, first'.same a outside]
  · rw [second'.sum, first'.sum]

theorem of_move {source destination : A} {amount : Nat} (enough : amount ≤ b source) :
    Moved {source, destination} b (move b source destination amount) := by
  by_cases same : source = destination
  -- What is taken is given back to the same account.
  · subst same
    have kept : move b source source amount = b := by
      simp only [move, Function.update_self]
      rw [Nat.sub_add_cancel enough, Function.update_idem, Function.update_eq_self]
    rw [kept]
    exact (refl b).mono (Finset.empty_subset _)
  · constructor
    · intro a outside
      simp only [Finset.mem_insert, Finset.mem_singleton, not_or] at outside
      simp [move, outside.1, outside.2]
    · have taken : move b source destination amount source = b source - amount := by simp [move, same]
      have given : move b source destination amount destination = b destination + amount := by
        simp [move, Ne.symm same]
      rw [Finset.sum_pair same, Finset.sum_pair same, taken, given]
      omega

theorem sum_le (moved : Moved touched b b') (accounts : Finset A) :
    accounts.sum b' ≤ (accounts ∪ touched).sum b := by
  have wider : Moved (accounts ∪ touched) b b' := moved.mono Finset.subset_union_right
  rw [← wider.sum]
  exact Finset.sum_le_sum_of_subset Finset.subset_union_left

end Moved

end Shared.Balances
