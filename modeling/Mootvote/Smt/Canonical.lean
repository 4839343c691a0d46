import Mootvote.Smt.Proofs

set_option autoImplicit false

namespace Mootvote.SmtCircom

open Shared SparseMerkle SparseMerkleTree

variable {H : IdealHash Word} {depth : Nat}

def storeAfter (H : IdealHash Word) (depth : Nat) : List Call → MemStore → Option MemStore
  | [], s => some s
  | c :: calls, s =>
      match c.exec H depth s with
      | .ok (.ok _, s') => storeAfter H depth calls s'
      | _ => none

def assigned (calls : List Call) : Map := calls.foldl Call.apply fun _ => none

theorem Holds.after_calls {s s' : MemStore} {t : SparseTree Word} {m : Map} {calls : List Call}
    (holds : Holds H depth s t m)
    (run : storeAfter H depth calls s = some s') : ∃ t', Holds H depth s' t' (calls.foldl Call.apply m) := by
  induction calls generalizing s t m with
  | nil =>
      cases run
      exact ⟨t, holds⟩
  | cons c calls ih =>
      rw [storeAfter] at run
      split at run
      · next reply mid done =>
          obtain ⟨t', held⟩ := holds.of_call done
          exact ih held run
      · cases run

theorem Holds.root_eq_iff {s s' : MemStore} {t t' : SparseTree Word} {m m' : Map}
    (holds : Holds H depth s t m)
    (holds' : Holds H depth s' t' m') : s.root = s'.root ↔ m = m' := by
  constructor
  · intro same
    have committed : t.commit H = some s'.root := by
      rw [← same]
      exact holds.stores.commit
    have trees := SparseTree.commit_injective committed holds'.stores.commit
    funext key
    rw [← holds.lookup, ← holds'.lookup, trees]
  · intro same
    have trees : t = t' := holds.stores.shaped.eq_of_lookup holds'.stores.shaped fun key => by
      rw [holds.lookup, holds'.lookup, same]
    have left := holds.stores.commit
    rw [trees] at left
    exact Option.some.inj (left.symm.trans holds'.stores.commit)

/-- Whatever the order of the calls, the root is the same exactly if the assignment is. -/
theorem root_history_independent {calls calls' : List Call} {s s' : MemStore}
    (run : storeAfter H depth calls .new = some s) (run' : storeAfter H depth calls' .new = some s') :
    ∃ r r', root s = .ok (.ok r, s) ∧ root s' = .ok (.ok r', s') ∧
    (r = r' ↔ assigned calls = assigned calls') := by
  obtain ⟨t, holds⟩ := (holds_new H depth).after_calls run
  obtain ⟨t', holds'⟩ := (holds_new H depth).after_calls run'
  exact ⟨_, _, root_run s, root_run s', holds.root_eq_iff holds'⟩

namespace DeepestBit

def inOrder : List Call := [.add 0 7, .add 1 8]

/-- The same assignment in the other order, with a value overwritten on the way. -/
def overwritten : List Call := [.add 1 8, .add 0 9, .addOrUpdate 0 7]

theorem root_history_independent_overwritten :
    ∃ s s' : MemStore, storeAfter hash 2 inOrder .new = some s ∧
    storeAfter hash 2 overwritten .new = some s' ∧
      ∃ r r', root s = .ok (.ok r, s) ∧ root s' = .ok (.ok r', s') ∧
      (r = r' ↔ assigned inOrder = assigned overwritten) := by
  have first : (storeAfter hash 2 inOrder .new).isSome := by decide +kernel
  have second : (storeAfter hash 2 overwritten .new).isSome := by decide +kernel
  obtain ⟨s, run⟩ := Option.isSome_iff_exists.1 first
  obtain ⟨s', run'⟩ := Option.isSome_iff_exists.1 second
  exact ⟨s, s', run, run', root_history_independent run run'⟩

end DeepestBit

end Mootvote.SmtCircom
