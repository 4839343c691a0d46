import Mootvote.Smt.Proofs

set_option autoImplicit false

/-!
# When a stored tree panics

A new key needs a path of its own, and Poseidon needs words below the modulus. Nothing else stops a call.
-/

namespace Mootvote.SmtCircom

open Shared SparseMerkle SparseMerkleTree

variable {H : IdealHash Word} {depth : Nat} {s : MemStore} {t t' : SparseTree Word} {m : Map}
  {key val : Word}

section poseidon

def Canonical (w : Word) : Prop := w.toNat < scalarModulus

instance (w : Word) : Decidable (Canonical w) := inferInstanceAs (Decidable (_ < _))

/-- Poseidon hashes the nodes of the tree, except where a word of a leaf is not canonical. -/
def Covers (H : IdealHash Word) : SparseTree Word → Prop
  | .empty => True
  | .leaf k v => Canonical k → Canonical v → leafHash H k v ≠ none
  | .node l r => Covers H l ∧ Covers H r ∧
      ∀ a b, l.commit H = some a → r.commit H = some b → H.hash [a, b] ≠ none

/-- Poseidon on the tree that holds the map: it refuses words from the modulus on, and only those. -/
structure Poseidon (H : IdealHash Word) (depth : Nat) (m : Map) : Prop where
  refuses : ∀ inputs h, H.hash inputs = some h → ∀ w ∈ inputs, Canonical w
  covers : ∀ t : SparseTree Word, t.Shaped depth → (∀ k, t.lookup k 0 = m k) → Covers H t

theorem canonical_of_commit (poseidon : Poseidon H depth m) {root : Word} (hashed : t.commit H = some root) :
    ∀ entry ∈ t.leaves, Canonical entry.1 ∧ Canonical entry.2 := by
  induction t generalizing root with
  | empty => simp [SparseTree.leaves]
  | leaf k v =>
      have words := poseidon.refuses [k, v, 1] root hashed
      simp only [SparseTree.leaves, List.mem_singleton, forall_eq]
      exact ⟨words k (by simp), words v (by simp)⟩
  | node l r ihLeft ihRight =>
      obtain ⟨a, b, isLeft, isRight, _⟩ := SparseTree.commit_node_iff.1 hashed
      rw [SparseTree.leaves, List.forall_mem_append]
      exact ⟨ihLeft isLeft, ihRight isRight⟩

theorem exists_commit (covers : Covers H t)
    (canonical : ∀ entry ∈ t.leaves, Canonical entry.1 ∧ Canonical entry.2) :
    ∃ root, t.commit H = some root := by
  induction t with
  | empty => exact ⟨0, rfl⟩
  | leaf k v =>
      obtain ⟨key, value⟩ := canonical (k, v) (by simp [SparseTree.leaves])
      exact Option.ne_none_iff_exists'.1 (covers key value)
  | node l r ihLeft ihRight =>
      rw [SparseTree.leaves, List.forall_mem_append] at canonical
      obtain ⟨left, right, both⟩ := covers
      obtain ⟨a, isLeft⟩ := ihLeft left canonical.1
      obtain ⟨b, isRight⟩ := ihRight right canonical.2
      obtain ⟨root, hashed⟩ := Option.ne_none_iff_exists'.1 (both a b isLeft isRight)
      exact ⟨root, SparseTree.commit_node_iff.2 ⟨a, b, isLeft, isRight, hashed⟩⟩

end poseidon

def Ends {A : Type} (run : Run MemStore A) (s : MemStore) : Prop := ∃ a s', run s = .ok (a, s')

theorem ends_map {A B : Type} (run : Run MemStore A) (f : A → B) :
    Ends (do let a ← run; return f a) s ↔ Ends run s := by
  constructor
  · rintro ⟨b, s', done⟩
    cases ran : run s with
    | error p => cases (Exec.bind_panic ran).symm.trans done
    | ok result => exact ⟨result.1, result.2, ran⟩
  · rintro ⟨a, s', done⟩
    cases a with
    | error e => exact ⟨_, _, Exec.bind_throw done⟩
    | ok a => exact ⟨_, _, Exec.bind_ok done⟩

theorem ends_of_ok {A : Type} {run : Run MemStore A} {a : Except (SmtError (NodeStore.Error MemStore)) A}
    {s' : MemStore} (done : run s = .ok (a, s')) : Ends run s := ⟨a, s', done⟩

theorem not_ends_of_panic {A : Type} {run : Run MemStore A} {p : Panic} (panics : run s = .error p) :
    ¬Ends run s := by
  rintro ⟨a, s', done⟩
  cases panics.symm.trans done

namespace Holds

theorem add_eq_none_iff (holds : Holds H depth s t m) (absent : m key = none) :
    t.add key val depth 0 = none ↔ ∃ other, (m other).isSome ∧ SparseTree.Agree key other 0 depth := by
  have shaped := holds.stores.shaped
  constructor
  · intro full
    by_contra alone
    push Not at alone
    have placed := SparseTree.add_isSome val shaped.height (fun entry member => by
      have differs := alone entry.1 ((holds.mem_keys entry.1).1 (List.mem_map_of_mem member))
      simpa [SparseTree.Agree] using differs) shaped.ordered
    rw [full] at placed
    cases placed
  · rintro ⟨other, stored, agree⟩
    -- Leaves with one path would sit in one slot.
    by_contra placed
    obtain ⟨t', done⟩ := Option.ne_none_iff_exists'.1 placed
    have shaped' := shaped.add done
    have leaves := SparseTree.add_leaves done
    obtain ⟨⟨found, value⟩, member, same⟩ := List.mem_map.1 ((holds.mem_keys other).2 stored)
    have same : found = other := same
    subst same
    have slotNew := SparseTree.slot_of_mem shaped'.ordered
      (leaves.mem_iff.2 (List.mem_cons_self (a := (key, val))))
    have slotOld := SparseTree.slot_of_mem shaped'.ordered (leaves.mem_iff.2 (List.mem_cons_of_mem _ member))
    rw [SparseTree.slot_of_agree fun j inside => agree j
      (lt_of_lt_of_le inside ((t'.length_sides_le key 0).trans shaped'.height)), slotNew] at slotOld
    injection slotOld with same
    rw [← same, absent] at stored
    cases stored

theorem commit_of_add (holds : Holds H depth s t m) (done : t.add key val depth 0 = some t')
    (poseidon : Poseidon H depth (Function.update m key (some val))) :
    (∃ root, t'.commit H = some root) ↔ Canonical key ∧ Canonical val := by
  have shaped := holds.stores.shaped
  have leaves := SparseTree.add_leaves done
  have covers := poseidon.covers t' (shaped.add done) fun k => by
    rw [SparseTree.lookup_add shaped.ordered done, holds.lookup, Function.update_apply]
  constructor
  · rintro ⟨root, hashed⟩
    exact canonical_of_commit poseidon hashed (key, val) (leaves.mem_iff.2 List.mem_cons_self)
  · intro own
    refine exists_commit covers fun entry member => ?_
    rcases List.mem_cons.1 (leaves.mem_iff.1 member) with rfl | old
    · exact own
    · exact canonical_of_commit poseidon holds.stores.commit entry old

theorem commit_of_set {old : Word} (holds : Holds H depth s t m) (done : t.set key val 0 = some (old, t'))
    (poseidon : Poseidon H depth (Function.update m key (some val))) :
    (∃ root, t'.commit H = some root) ↔ Canonical val := by
  have shaped := holds.stores.shaped
  obtain ⟨rest, before, after⟩ := SparseTree.set_leaves done
  have covers := poseidon.covers t' (shaped.set done) fun k => by
    rw [SparseTree.lookup_set shaped.ordered done, holds.lookup, Function.update_apply]
  have kept := canonical_of_commit poseidon holds.stores.commit
  constructor
  · rintro ⟨root, hashed⟩
    exact (canonical_of_commit poseidon hashed (key, val) (after.mem_iff.2 List.mem_cons_self)).2
  · intro own
    refine exists_commit covers fun entry member => ?_
    rcases List.mem_cons.1 (after.mem_iff.1 member) with rfl | other
    · exact ⟨(kept (key, old) (before.mem_iff.2 List.mem_cons_self)).1, own⟩
    · exact kept entry (before.mem_iff.2 (List.mem_cons_of_mem _ other))

theorem add_ends_iff (holds : Holds H depth s t m) (bound : depth ≤ 256) (absent : m key = none)
    (poseidon : Poseidon H depth (Function.update m key (some val))) :
    Ends (add H depth key val) s ↔
      (¬∃ other, (m other).isSome ∧ SparseTree.Agree key other 0 depth) ∧ Canonical key ∧ Canonical val := by
  rw [← @add_eq_none_iff H depth s t m key val holds absent]
  cases done : t.add key val depth 0 with
  | none =>
      have panics := not_ends_of_panic
        (add_overruns holds.stores bound ((holds.lookup key).trans absent) done)
      simp [panics]
  | some t' =>
      rw [← holds.commit_of_add done poseidon]
      cases hashed : t'.commit H with
      | none => simp [not_ends_of_panic (add_panics holds.stores bound done hashed)]
      | some root =>
          obtain ⟨s', run, _⟩ := add_done holds.stores bound done hashed
          simp [ends_of_ok run]

def Reaches (depth : Nat) (m : Map) (key : Word) : Prop :=
  ∀ other, (m other).isSome → SparseTree.Agree key other 0 (depth - 1) → other = key

theorem update_ends_iff (holds : Holds H depth s t m) (bound : depth ≤ 256) (positive : 0 < depth)
    (stored : (m key).isSome) (poseidon : Poseidon H depth (Function.update m key (some val))) :
    Ends (update H depth key val) s ↔ (Reaches depth m key → Canonical val) := by
  have short := holds.short_iff positive stored
  by_cases reaches : Reaches depth m key
  · obtain ⟨old, isOld⟩ := Option.isSome_iff_exists.1 stored
    obtain ⟨t', done⟩ := holds.exists_set isOld val
    simp only [reaches, true_implies]
    rw [← holds.commit_of_set done poseidon]
    cases hashed : t'.commit H with
    | none => simp [not_ends_of_panic (update_panics holds.stores bound done (short.2 reaches) hashed)]
    | some root =>
        obtain ⟨s', run, _⟩ := update_done holds.stores bound done (short.2 reaches) hashed
        simp [ends_of_ok run]
  · have long : depth ≤ (t.sides key 0).length := Nat.not_lt.1 fun low => reaches (short.1 low)
    simp [reaches, ends_of_ok (update_missing holds.stores bound (.inr long))]

end Holds

namespace Call

def Collides (depth : Nat) (m : Map) : Call → Prop
  | .add key _ | .addOrUpdate key _ =>
      m key = none ∧ ∃ other, (m other).isSome ∧ SparseTree.Agree key other 0 depth
  | .update _ _ | .getProof _ => False

def Writes (depth : Nat) (m : Map) : Call → Prop
  | .add key val => m key = none → Canonical key ∧ Canonical val
  | .update key val => (m key).isSome → Holds.Reaches depth m key → Canonical val
  | .addOrUpdate key val =>
      if m key = none then Canonical key ∧ Canonical val else Holds.Reaches depth m key → Canonical val
  | .getProof _ => True

end Call

section calls

theorem ends_add : Ends ((Call.add key val).exec H depth) s ↔ Ends (add H depth key val) s := ends_map _ _

theorem ends_update : Ends ((Call.update key val).exec H depth) s ↔ Ends (update H depth key val) s :=
  ends_map _ _

theorem ends_getProof : Ends ((Call.getProof key).exec H depth) s ↔ Ends (getProof depth key) s :=
  ends_map _ _

theorem Holds.ends_addOrUpdate (holds : Holds H depth s t m) (bound : depth ≤ 256) :
    Ends ((Call.addOrUpdate key val).exec H depth) s ↔
      if m key = none then Ends (add H depth key val) s else Ends (update H depth key val) s := by
  refine Iff.trans (ends_map (addOrUpdate H depth key val) _) ?_
  cases stored : m key with
  | none =>
      rw [if_pos rfl]
      have same : addOrUpdate H depth key val s = add H depth key val s := by
        rcases @Holds.add_absent H depth s t m key val holds bound stored with
          ⟨p, panics⟩ | ⟨s', t', added, _⟩
        · exact (addOrUpdate_of_add panics (by simp)).trans panics.symm
        · exact (addOrUpdate_of_add added (by simp)).trans added.symm
      rw [Ends, Ends, same]
  | some old =>
      have present : add H depth key val s = _ := holds.add_stored bound stored
      rw [if_neg (by simp), ← ends_map (update H depth key val) fun _ => (), Ends, Ends,
        addOrUpdate_of_present present]

end calls

/-- `push_leaf` follows two paths that never part over their end. -/
theorem collides_panics {c : Call} (reached : Reachable H depth s m) (bound : depth ≤ 256)
    (collides : c.Collides depth m) : c.exec H depth s = .error .indexOutOfBounds := by
  obtain ⟨t, holds⟩ := reached.holds
  have overruns {key val : Word} (absent : m key = none)
      (shared : ∃ other, (m other).isSome ∧ SparseTree.Agree key other 0 depth) :
      add H depth key val s = .error .indexOutOfBounds :=
    add_overruns holds.stores bound ((holds.lookup key).trans absent)
      ((holds.add_eq_none_iff absent).2 shared)
  cases c with
  | add key val => exact Exec.bind_panic (overruns collides.1 collides.2)
  | addOrUpdate key val =>
      exact Exec.bind_panic (addOrUpdate_of_add (overruns collides.1 collides.2) (by simp))
  | update | getProof => exact collides.elim

/-- A call returns exactly if it brings no second key with a stored key's path and no word that Poseidon
refuses. -/
theorem ends_iff (reached : Reachable H depth s m) (bound : depth ≤ 256) (positive : 0 < depth) (c : Call)
    (poseidon : Poseidon H depth (c.apply m)) :
    (∃ a s', c.exec H depth s = .ok (a, s')) ↔ ¬c.Collides depth m ∧ c.Writes depth m := by
  obtain ⟨t, holds⟩ := reached.holds
  change Ends (c.exec H depth) s ↔ _
  cases c with
  | add key val =>
      rw [ends_add]
      cases stored : m key with
      | some old => simp [Call.Collides, Call.Writes, stored, ends_of_ok (holds.add_stored bound stored)]
      | none =>
          rw [Call.apply, stored, if_neg (by simp)] at poseidon
          rw [holds.add_ends_iff bound stored poseidon]
          simp [Call.Collides, Call.Writes, stored]
  | update key val =>
      rw [ends_update]
      cases stored : m key with
      | none =>
          have missing : update H depth key val s = _ :=
            update_missing holds.stores bound (.inl ((holds.lookup key).trans stored))
          simp [Call.Collides, Call.Writes, stored, ends_of_ok missing]
      | some old =>
          have isStored : (m key).isSome := by simp [stored]
          rw [Call.apply, if_pos isStored] at poseidon
          rw [holds.update_ends_iff bound positive isStored poseidon]
          simp [Call.Collides, Call.Writes, stored]
  | addOrUpdate key val =>
      rw [holds.ends_addOrUpdate bound]
      cases stored : m key with
      | none =>
          rw [if_pos rfl, holds.add_ends_iff bound stored poseidon]
          simp [Call.Collides, Call.Writes, stored]
      | some old =>
          rw [if_neg (by simp), holds.update_ends_iff bound positive (by simp [stored]) poseidon]
          simp [Call.Collides, Call.Writes, stored]
  | getProof key =>
      obtain ⟨hashes, _, run⟩ := getProof_run key holds.stores bound positive
      rw [ends_getProof]
      simp [Call.Collides, Call.Writes, ends_of_ok run]

namespace DeepestBit

theorem reachable_deep : Reachable hash 64 (storing 0 7 101) ((Call.add 0 7).apply fun _ => none) := by
  have run : Call.exec hash 64 (.add 0 7) .new = .ok (.ok .done, storing 0 7 101) := by
    simp only [Call.exec, add]
    unfold addLeaf
    rfl
  exact .call .new run

theorem add_panics_deep : 0 < 64 ∧ 64 ≤ 256 ∧ Canonical (2 ^ 64) ∧ Canonical 8 ∧
    Reachable hash 64 (storing 0 7 101) ((Call.add 0 7).apply fun _ => none) ∧
      (Call.add (2 ^ 64) 8).exec hash 64 (storing 0 7 101) = .error .indexOutOfBounds := by
  refine ⟨by decide, by decide, by decide +kernel, by decide +kernel, reachable_deep,
    collides_panics reachable_deep (by decide) ?_⟩
  have absent : (Call.add 0 7).apply (fun _ => none) (2 ^ 64 : Word) = none := by
    have other : ¬(2 ^ 64 : Word) = 0 := by decide +kernel
    rw [Call.apply, if_neg (by simp)]
    exact Function.update_of_ne other _ _
  have shared : ∀ j < 64, bit (2 ^ 64 : Word) (0 + j) = bit (0 : Word) (0 + j) := by decide +kernel
  exact ⟨absent, 0, by simp [Call.apply], shared⟩

theorem poseidon_two :
    Poseidon hash 2 ((Call.add 0 7).apply ((Call.add 2 8).apply fun _ => none)) where
  refuses := by
    have words : ∀ entry ∈ [([0, 7, 1], 101), ([2, 8, 1], 102), ([101, 102], 103), ([103, 0], 104),
        ([1, 8, 1], 105), ([101, 105], 106), ([0, 9, 1], 107), ([107, 105], 108), ([102, 105], 109),
        (([2, 9, 1] : List Word), (110 : Word))], ∀ w ∈ entry.1, w.toNat < 256 := by simp
    intro inputs h hashed
    obtain ⟨entry, found, _⟩ := Option.map_eq_some_iff.1 hashed
    have own : entry.1 = inputs := by simpa using List.find?_some found
    rw [← own]
    intro w inside
    have small := words entry (List.mem_of_find?_eq_some found) w inside
    exact small.trans (by decide)
  covers := by
    intro t shaped lookup
    have first : (SparseTree.empty : SparseTree Word).add 2 8 2 0 = some (.leaf 2 8) := rfl
    have second : (SparseTree.leaf 2 8 : SparseTree Word).add 0 7 2 0 =
        some (.node (.node (.leaf 0 7) (.leaf 2 8)) .empty) := rfl
    have shapedTwo := (SparseTree.shaped_empty 2).add first
    have same := shaped.eq_of_lookup (shapedTwo.add second) fun key => by
      rw [lookup, SparseTree.lookup_add shapedTwo.ordered second,
        SparseTree.lookup_add (SparseTree.shaped_empty 2).ordered first]
      simp [Call.apply, Function.update_apply, SparseTree.lookup, SparseTree.slot]
    subst same
    have left : leafHash hash 0 7 = some 101 := by decide +kernel
    have right : leafHash hash 2 8 = some 102 := by decide +kernel
    have nodes : hash.hash [101, 102] = some 103 := by decide +kernel
    have root : hash.hash [103, 0] = some 104 := by decide +kernel
    have both : ((SparseTree.leaf 0 7).node (.leaf 2 8) : SparseTree Word).commit hash = some 103 :=
      SparseTree.commit_node_iff.2 ⟨101, 102, left, right, nodes⟩
    refine ⟨⟨fun _ _ => by simp only [left]; simp, fun _ _ => by simp only [right]; simp, ?_⟩, trivial, ?_⟩
    · intro a b isLeft isRight
      cases left.symm.trans isLeft
      cases right.symm.trans isRight
      simp only [nodes]
      simp
    · intro a b isLeft isRight
      cases both.symm.trans isLeft
      cases isRight
      simp only [root]
      simp

theorem ends_iff_two :
    (∃ a s', (Call.add 0 7).exec hash 2 (storing 2 8 102) = .ok (a, s')) ↔
      ¬(Call.add 0 7).Collides 2 ((Call.add 2 8).apply fun _ => none) ∧
        (Call.add 0 7).Writes 2 ((Call.add 2 8).apply fun _ => none) :=
  ends_iff reachable_two (by decide) (by decide) _ poseidon_two

end DeepestBit

end Mootvote.SmtCircom
