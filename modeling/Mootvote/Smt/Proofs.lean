import Mootvote.Shared.SparseProof
import Mootvote.Smt.FiniteMap

set_option autoImplicit false

namespace Mootvote.SmtCircom

open Shared SparseMerkle SparseMerkleTree

variable {H : IdealHash Word} {depth : Nat}

/-- The stores that successful calls lead to, with the map that the calls describe. -/
inductive Reachable (H : IdealHash Word) (depth : Nat) : MemStore → Map → Prop
  | new : Reachable H depth MemStore.new fun _ => none
  | call {s s' : MemStore} {m : Map} {c : Call} {reply : Reply} :
      Reachable H depth s m → c.exec H depth s = .ok (.ok reply, s') → Reachable H depth s' (c.apply m)

theorem bound_of_exec {c : Call} {s s' : MemStore} {reply : Reply}
    (run : c.exec H depth s = .ok (.ok reply, s')) :
    depth ≤ 256 := by
  by_contra wide
  cases c with
  | add key val => cases (Exec.bind_panic (add_of_long wide key val s)).symm.trans run
  | update key val => cases (Exec.bind_panic (update_of_long wide key val s)).symm.trans run
  | addOrUpdate key val =>
      have added : add H depth key val s = _ := add_of_long wide key val s
      have refused := addOrUpdate_of_add added (by simp)
      cases (Exec.bind_panic refused).symm.trans run
  | getProof key => cases (Exec.bind_panic (getProof_of_long wide key s)).symm.trans run

namespace Holds

variable {s s' : MemStore} {t : SparseTree Word} {m : Map} {key val : Word}

theorem add_absent (holds : Holds H depth s t m) (bound : depth ≤ 256) (absent : m key = none) :
    (∃ p, add H depth key val s = .error p) ∨
      ∃ s' t', add H depth key val s = .ok (.ok (), s') ∧ Holds H depth s' t'
      (Function.update m key (some val)) := by
  cases done : t.add key val depth 0 with
  | none => exact .inl ⟨_, add_overruns holds.stores bound ((holds.lookup key).trans absent) done⟩
  | some t' =>
      rcases holds.add_some bound done with refused | ⟨s', added, held⟩
      · exact .inl ⟨_, refused⟩
      · exact .inr ⟨s', t', added, held⟩

theorem of_add (holds : Holds H depth s t m) (bound : depth ≤ 256)
    (run : add H depth key val s = .ok (.ok (), s')) :
    m key = none ∧ ∃ t', Holds H depth s' t' (Function.update m key (some val)) := by
  cases stored : m key with
  | some old => cases (holds.add_stored bound stored).symm.trans run
  | none =>
      obtain ⟨t', done, staged⟩ := SparseMerkleTree.of_add holds.stores bound run
      exact ⟨rfl, t', holds.after staged (SparseTree.lookup_add holds.stores.shaped.ordered done)⟩

theorem of_update {old : Word} (holds : Holds H depth s t m) (bound : depth ≤ 256)
    (run : update H depth key val s = .ok (.ok old, s')) :
    m key = some old ∧ ∃ t', Holds H depth s' t' (Function.update m key (some val)) := by
  obtain ⟨t', done, staged⟩ := SparseMerkleTree.of_update holds.stores bound run
  refine ⟨?_, t', holds.after staged (SparseTree.lookup_set holds.stores.shaped.ordered done)⟩
  rw [← holds.lookup]
  exact SparseTree.lookup_of_set done

theorem of_addOrUpdate (holds : Holds H depth s t m) (bound : depth ≤ 256)
    (run : addOrUpdate H depth key val s = .ok (.ok (), s')) :
    ∃ t', Holds H depth s' t' (Function.update m key (some val)) := by
  cases stored : m key with
  | some present =>
      have again := (addOrUpdate_of_present (holds.add_stored bound stored)).symm.trans run
      obtain ⟨old, s₁, updated, done⟩ := Exec.of_bind_ok again
      cases done
      exact (holds.of_update bound updated).2
  | none =>
      rcases holds.add_absent bound stored with ⟨p, panics⟩ | ⟨s₁, t', added, held⟩
      · cases (addOrUpdate_of_add panics (by simp)).symm.trans run
      · cases (addOrUpdate_of_add added (by simp)).symm.trans run
        exact ⟨t', held⟩

theorem of_call {c : Call} {reply : Reply} (holds : Holds H depth s t m)
    (run : c.exec H depth s = .ok (.ok reply, s')) : ∃ t', Holds H depth s' t' (c.apply m) := by
  have bound := bound_of_exec run
  cases c with
  | add key val =>
      obtain ⟨_, s₁, added, done⟩ := Exec.of_bind_ok run
      cases done
      obtain ⟨absent, held⟩ := holds.of_add bound added
      simpa [Call.apply, absent] using held
  | update key val =>
      obtain ⟨old, s₁, updated, done⟩ := Exec.of_bind_ok run
      cases done
      obtain ⟨stored, held⟩ := holds.of_update bound updated
      simpa [Call.apply, stored] using held
  | addOrUpdate key val =>
      obtain ⟨_, s₁, changed, done⟩ := Exec.of_bind_ok run
      cases done
      exact holds.of_addOrUpdate bound changed
  | getProof key =>
      obtain ⟨p, s₁, proved, done⟩ := Exec.of_bind_ok run
      cases done
      rw [(getProof_state holds.stores bound proved).2]
      exact ⟨t, holds⟩

end Holds

theorem Reachable.holds {s : MemStore} {m : Map} (reached : Reachable H depth s m) :
    ∃ t, Holds H depth s t m := by
  induction reached with
  | new => exact ⟨.empty, holds_new H depth⟩
  | call before run ih =>
      obtain ⟨t, holds⟩ := ih
      exact holds.of_call run

section acceptance

variable {s : MemStore} {t : SparseTree Word} {m : Map} {key : Word}

def Accepted (H : IdealHash Word) (depth : Nat) (s : MemStore) (key : Word) : Prop :=
  ∃ p, getProof depth key s = .ok (.ok p, s) ∧ p.opening.Verifies H s.root key p.getLeaf

def Unshared (depth : Nat) (m : Map) (key : Word) : Prop :=
  ∀ a b, (m a).isSome → (m b).isSome →
    SparseTree.Agree key a 0 (depth - 1) → SparseTree.Agree key b 0 (depth - 1) → a = b

def Alone (m : Map) (key found : Word) : Prop :=
  (m found).isSome ∧ ∃ n, ∀ a, (m a).isSome → (SparseTree.Agree key a 0 n ↔ a = found)

theorem Holds.sides_lt_iff (holds : Holds H depth s t m) (positive : 0 < depth) (key : Word) :
    (t.sides key 0).length < depth ↔ Unshared depth m key := by
  rw [SparseTree.sides_lt_iff holds.stores.shaped positive]
  simp only [holds.mem_keys]
  exact ⟨fun unique a b inA inB => unique a inA b inB, fun unique a inA b inB => unique a b inA inB⟩

theorem Holds.slot_leaf_iff (holds : Holds H depth s t m) (key found : Word) :
    (∃ value, t.slot key 0 = .leaf found value) ↔ Alone m key found := by
  rw [SparseTree.slot_leaf_iff holds.stores.shaped]
  simp only [holds.mem_keys]
  rfl

theorem opening_siblings (key : Word) (siblings : List Word) (sub : SparseTree Word) :
    (proofOf key siblings sub).opening.siblings = siblings := by cases sub <;> rfl

theorem rootOf_proofOf {siblings : List Word} {slot : Word} {sub : SparseTree Word} {n : Nat}
    (last : siblings.getLast? ≠ some 0) :
    (proofOf key (siblings ++ List.replicate n 0) sub).opening.rootOf H key slot =
      foldUp H key 0 siblings slot := by
  rw [Opening.rootOf, Opening.level, opening_siblings, slotLevel_of_last last, List.take_left']
  rfl

theorem shownSlot_proofOf {siblings : List Word} {sub : SparseTree Word} {slot : Word}
    (ends : sub.sides key 0 = []) (isSlot : sub.commit H = some slot) :
    (proofOf key siblings sub).opening.shownSlot H key (proofOf key siblings sub).getLeaf = some slot ↔
      ((∃ v, sub = .leaf 0 v) → key = 0) := by
  cases sub with
  | empty =>
      cases isSlot
      simp [proofOf, CircomProof.opening, CircomProof.getLeaf, Opening.shownSlot, Opening.oldSlot]
  | leaf k v =>
      have hashed : leafHash H k v = some slot := isSlot
      have leaf : (proofOf key siblings (.leaf k v)).getLeaf = if k = key then some v else none := by
        by_cases own : k = key <;> simp [proofOf, CircomProof.getLeaf, own]
      have shown : (proofOf key siblings (.leaf k v)).opening.oldSlot H =
          if k = 0 then some 0 else leafHash H k v := by
        by_cases zero : k = 0
        · rw [if_pos zero]
          exact if_pos (decide_eq_true zero)
        · rw [if_neg zero]
          exact if_neg (ne_true_of_eq_false (decide_eq_false zero))
      by_cases own : k = key
      · rw [leaf, if_pos own, ← own]
        refine iff_of_true hashed ?_
        rintro ⟨v', same⟩
        injection same
      · -- Another key's leaf is shown as the slot, unless its key is zero, which stands for no leaf.
        have foreign : ¬ ((proofOf key siblings (.leaf k v)).opening.isOld0 = false ∧
            (proofOf key siblings (.leaf k v)).opening.oldKey = key) := fun other => own other.2
        rw [leaf, if_neg own, Opening.shownSlot, if_neg foreign, shown]
        by_cases zero : k = 0
        · subst zero
          rw [if_pos rfl]
          refine iff_of_false (fun same => H.ne_zero _ (same ▸ hashed)) fun other => own (other ⟨v, rfl⟩).symm
        · rw [if_neg zero]
          refine iff_of_true hashed ?_
          rintro ⟨v', same⟩
          injection same with same
          exact absurd same zero
  | node => simp [SparseTree.sides_node] at ends

theorem verifies_proofOf {hashes : List Word} {sub : SparseTree Word} {n : Nat} {root slot : Word}
    (last : hashes.getLast? ≠ some 0) (folded : foldUp H key 0 hashes slot = some root)
    (value : Option Word) :
    (proofOf key (hashes ++ List.replicate (n + 1) 0) sub).opening.Verifies H root key value ↔
      (proofOf key (hashes ++ List.replicate (n + 1) 0) sub).opening.shownSlot H key value = some slot := by
  constructor
  · intro verifies
    obtain ⟨slot', isShown, folded'⟩ := Option.bind_eq_some_iff.1 verifies.fold
    rw [rootOf_proofOf last] at folded'
    rw [isShown, foldUp_injective folded' folded]
  · intro isShown
    constructor
    · rw [opening_siblings, List.replicate_succ', ← List.append_assoc, List.getLast?_concat]
    · rw [isShown, Option.bind_some, rootOf_proofOf last]
      exact folded

theorem accepted_iff_slot (stores : Stores H depth s t) (bound : depth ≤ 256) (positive : 0 < depth) :
    Accepted H depth s key ↔ (t.sides key 0).length < depth ∧
    ((∃ v, t.slot key 0 = .leaf 0 v) → key = 0) := by
  obtain ⟨hashes, beside, run⟩ := getProof_run key stores bound positive
  have last := SparseTree.last_hash_ne_zero stores.shaped.compact beside
  have given {p : CircomProof} (run : getProof depth key s = .ok (.ok p, s)) :
      Accepted H depth s key ↔ p.opening.Verifies H s.root key p.getLeaf := by
    constructor
    · rintro ⟨p', run', verifies⟩
      cases run.symm.trans run'
      exact verifies
    · exact fun verifies => ⟨p, run, verifies⟩
  rw [given run, beside.length_eq]
  by_cases short : hashes.length < depth
  · obtain ⟨n, rest⟩ : ∃ n, depth - hashes.length = n + 1 := ⟨depth - hashes.length - 1, by omega⟩
    have committed : t.commit H = some s.root := stores.commit
    obtain ⟨slot, isSlot, folded⟩ := foldUp_sides committed beside
    rw [if_pos short, rest, verifies_proofOf last folded,
      shownSlot_proofOf (SparseTree.sides_slot key 0 0 t) isSlot]
    simp [short]
  · -- The last sibling is not zero.
    have long : depth - hashes.length = 0 := by omega
    refine iff_of_false (fun verifies => last ?_) (fun other => short other.1)
    simpa [opening_siblings, long] using verifies.last

/-- A reachable store gives an accepted proof exactly if the key's path ends above the last level
and not at the leaf of another key, zero. -/
theorem accepted_iff (reached : Reachable H depth s m) (key : Word) :
    Accepted H depth s key ↔
      (0 < depth ∧ depth ≤ 256) ∧ Unshared depth m key ∧ (Alone m key 0 → key = 0) := by
  obtain ⟨t, holds⟩ := reached.holds
  by_cases levels : 0 < depth ∧ depth ≤ 256
  · rw [accepted_iff_slot holds.stores levels.2 levels.1, holds.sides_lt_iff levels.1, holds.slot_leaf_iff]
    simp [levels]
  · refine iff_of_false ?_ (fun other => levels other.1)
    rintro ⟨p, run, _⟩
    have called : Call.exec H depth (.getProof key) s = .ok (.ok (.leaf p.getLeaf), s) := Exec.bind_ok run
    have bound := bound_of_exec called
    exact levels ⟨(getProof_state holds.stores bound run).1, bound⟩

/-- Where `get_proof` gives a proof that the processor accepts, `add` and `update` take its transition. -/
theorem transitions_agree {p : CircomProof} {val newRoot : Word} (reached : Reachable H depth s m)
    (run : getProof depth key s = .ok (.ok p, s)) :
    (p.membership = false → p.opening.Verifies H s.root key none →
      p.opening.Inserts H s.root key val newRoot →
        ∃ s', add H depth key val s = .ok (.ok (), s') ∧ s'.root = newRoot) ∧
    (p.membership = true → p.opening.Verifies H s.root key (some p.oldValue) →
      (leafHash H key val).bind (p.opening.rootOf H key) = some newRoot →
        m key = some p.oldValue ∧
          ∃ s', update H depth key val s = .ok (.ok p.oldValue, s') ∧ s'.root = newRoot) := by
  obtain ⟨t, holds⟩ := reached.holds
  have called : Call.exec H depth (.getProof key) s = .ok (.ok (.leaf p.getLeaf), s) := Exec.bind_ok run
  have bound := bound_of_exec called
  have stores : Stores H depth s t := holds.stores
  obtain ⟨hashes, beside, proved⟩ := getProof_run key stores bound (getProof_state stores bound run).1
  have length : p.opening.siblings.length = depth := by
    have height := (SparseTree.length_sides_le key 0 t).trans stores.shaped.height
    rw [beside.length_eq] at height
    cases proved.symm.trans run
    rw [opening_siblings, List.length_append, List.length_replicate, Nat.add_sub_cancel' height]
  constructor
  · intro _ _ inserted
    obtain ⟨s', t', added, _, _, root⟩ := add_of_inserts stores bound length inserted
    exact ⟨s', added, root⟩
  · intro member verifies replaced
    have own := oldKey_of_member stores bound run member
    have updated : p.opening.Updates H s.root key val newRoot := by
      refine ⟨verifies.last, own, ?_, replaced⟩
      rw [show p.opening.oldKey = key from own]
      exact verifies.fold
    obtain ⟨s', t', done, set, _, root⟩ := update_of_updates stores bound length updated
    refine ⟨?_, s', done, root⟩
    rw [← holds.lookup]
    exact SparseTree.lookup_of_set set

end acceptance

namespace DeepestBit

def storing (key val root : Word) : MemStore :=
  { map := Function.update (fun _ => none) root (some (Node.leaf key val).encode), root := root }

theorem reachable_zero : Reachable hash 2 (storing 0 7 101) ((Call.add 0 7).apply fun _ => none) := by
  have run : Call.exec hash 2 (.add 0 7) .new = .ok (.ok .done, storing 0 7 101) := by
    simp only [Call.exec, add]
    unfold addLeaf
    rfl
  exact .call .new run

theorem reachable_two : Reachable hash 2 (storing 2 8 102) ((Call.add 2 8).apply fun _ => none) := by
  have run : Call.exec hash 2 (.add 2 8) .new = .ok (.ok .done, storing 2 8 102) := by
    simp only [Call.exec, add]
    unfold addLeaf
    rfl
  exact .call .new run

theorem accepted_iff_two : Accepted hash 2 (storing 2 8 102) 1 ↔
    (0 < 2 ∧ 2 ≤ 256) ∧ Unshared 2 ((Call.add 2 8).apply fun _ => none) 1 ∧
      (Alone ((Call.add 2 8).apply fun _ => none) 1 0 → (1 : Word) = 0) :=
  accepted_iff reachable_two 1

/-- The leaf of key zero makes the store deny its own slot. -/
theorem not_accepted_zero : Reachable hash 2 (storing 0 7 101) ((Call.add 0 7).apply fun _ => none) ∧
    (0 < 2 ∧ 2 ≤ 256) ∧ ¬ Accepted hash 2 (storing 0 7 101) 1 := by
  refine ⟨reachable_zero, by decide, ?_⟩
  rintro ⟨p, run, verifies⟩
  have given : getProof 2 1 (storing 0 7 101) = .ok (.ok
      { siblings := [0, 0], isOld0 := true, oldKey := 0, oldValue := 7, membership := false },
        storing 0 7 101) := by
    unfold getProof getProofLoop
    rfl
  cases given.symm.trans run
  exact absurd verifies.fold (by decide)

def proof (membership : Bool) : CircomProof :=
  { siblings := [0, 0], isOld0 := false, oldKey := 2, oldValue := 8, membership }

theorem transitions_agree_two :
    (∃ s', add hash 2 1 8 (storing 2 8 102) = .ok (.ok (), s') ∧ s'.root = 109) ∧
      ∃ s', update hash 2 2 9 (storing 2 8 102) = .ok (.ok 8, s') ∧ s'.root = 110 := by
  have absent : getProof 2 1 (storing 2 8 102) = .ok (.ok (proof false), storing 2 8 102) := by
    unfold getProof getProofLoop
    rfl
  have present : getProof 2 2 (storing 2 8 102) = .ok (.ok (proof true), storing 2 8 102) := by
    unfold getProof getProofLoop
    rfl
  constructor
  · exact (transitions_agree reachable_two absent).1 rfl ⟨by decide, by decide +kernel⟩
      ⟨by decide, by decide +kernel, by decide +kernel⟩
  · exact ((transitions_agree reachable_two present).2 rfl ⟨by decide, by decide +kernel⟩
      (by decide +kernel)).2

end DeepestBit

end Mootvote.SmtCircom
