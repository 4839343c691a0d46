import Mathlib.Data.Nat.Bitwise
import Mootvote.Smt.Operations

set_option autoImplicit false

namespace Mootvote.SmtCircom

open Shared SparseMerkle

inductive Call where
  | add (key val : Word)
  | update (key val : Word)
  | addOrUpdate (key val : Word)
  | getProof (key : Word)

inductive Reply where
  | done
  | value (old : Word)
  | leaf (value : Option Word)
deriving DecidableEq

abbrev Answer := Except (SmtError (NodeStore.Error MemStore)) Reply

abbrev Map := Word → Option Word

namespace Call

variable (H : IdealHash Word) (depth : Nat)

def key : Call → Word
  | .add key _ | .update key _ | .addOrUpdate key _ | .getProof key => key

def exec : Call → SparseMerkleTree.Run MemStore Reply
  | .add key val => do
      SparseMerkleTree.add H depth key val
      return .done
  | .update key val => do
      let old ← SparseMerkleTree.update H depth key val
      return .value old
  | .addOrUpdate key val => do
      SparseMerkleTree.addOrUpdate H depth key val
      return .done
  | .getProof key => do
      let proof ← SparseMerkleTree.getProof depth key
      return .leaf proof.getLeaf

def answer (m : Map) : Call → Answer
  | .add key _ => if (m key).isSome then .error .alreadyPresent else .ok .done
  | .update key _ =>
      match m key with
      | none => .error .keyNotFound
      | some old => .ok (.value old)
  | .addOrUpdate _ _ => .ok .done
  | .getProof key => .ok (.leaf (m key))

def apply (m : Map) : Call → Map
  | .add key val => if (m key).isSome then m else Function.update m key (some val)
  | .update key val => if (m key).isSome then Function.update m key (some val) else m
  | .addOrUpdate key val => Function.update m key (some val)
  | .getProof _ => m

/-- Only `add` reaches a stored key that shares all bits but the last with another one. -/
def Addressable (m : Map) : Call → Prop
  | .add _ _ => True
  | .update key _ | .addOrUpdate key _ | .getProof key =>
      (m key).isSome → ∀ other, (m other).isSome → SparseTree.Agree key other 0 (depth - 1) → other = key

end Call

/-- The store answers every call as the map does, and a failed call leaves its root. -/
def Agrees (H : IdealHash Word) (depth : Nat) : List Call → MemStore → Map → Prop
  | [], _, _ => True
  | c :: cs, s, m => ∃ s', c.exec H depth s = .ok (c.answer m, s') ∧
      ((c.answer m).toBool = false → s'.root = s.root) ∧ Agrees H depth cs s' (c.apply m)

def Hashes (H : IdealHash Word) (depth : Nat) : List Call → MemStore → Bool
  | [], _ => true
  | c :: cs, s =>
      match c.exec H depth s with
      | .error .poseidonHash => false
      | .error _ => true
      | .ok (_, s') => Hashes H depth cs s'

def Addressable (depth : Nat) : List Call → Map → Prop
  | [], _ => True
  | c :: cs, m => c.Addressable depth m ∧ Addressable depth cs (c.apply m)

structure Holds (H : IdealHash Word) (depth : Nat) (s : MemStore) (t : SparseTree Word) (m : Map) : Prop where
  stores : Stores H depth s t
  lookup : ∀ k, t.lookup k 0 = m k

def Bounded (depth : Nat) (m : Map) : Prop := ∀ k, (m k).isSome → k.toNat < 2 ^ depth

theorem agree_full {depth : Nat} {k k' : Word} (left : k.toNat < 2 ^ depth) (right : k'.toNat < 2 ^ depth)
    (agree : SparseTree.Agree k k' 0 depth) : k = k' := by
  apply BitVec.eq_of_toNat_eq
  apply Nat.eq_of_testBit_eq
  intro j
  by_cases inside : j < depth
  · have same := agree j inside
    rwa [Nat.zero_add] at same
  · have power : 2 ^ depth ≤ 2 ^ j := Nat.pow_le_pow_right (by omega) (by omega)
    rw [Nat.testBit_lt_two_pow (by omega), Nat.testBit_lt_two_pow (by omega)]

variable {H : IdealHash Word} {depth : Nat}

theorem addOrUpdate_of_add {S : Type} [NodeStore S] {key val : Word} {s : S}
    {r : Except Panic (Except (SmtError (NodeStore.Error S)) Unit × S)}
    (added : SparseMerkleTree.add H depth key val s = r)
    (other : ∀ s', r ≠ .ok (.error .alreadyPresent, s')) :
    SparseMerkleTree.addOrUpdate H depth key val s = r := by
  rw [SparseMerkleTree.addOrUpdate, added]
  split
  · exact absurd rfl (other _)
  · rfl

theorem addOrUpdate_of_present {S : Type} [NodeStore S] {key val : Word} {s s' : S}
    (added : SparseMerkleTree.add H depth key val s = .ok (.error .alreadyPresent, s')) :
    SparseMerkleTree.addOrUpdate H depth key val s =
      (do let _ ← SparseMerkleTree.update H depth key val : SparseMerkleTree.Run S Unit) s' := by
  rw [SparseMerkleTree.addOrUpdate, added]

theorem Bounded.apply {m : Map} {c : Call} (keys : Bounded depth m) (small : c.key.toNat < 2 ^ depth) :
    Bounded depth (c.apply m) := by
  have updated (val : Word) : Bounded depth (Function.update m c.key (some val)) := by
    intro k present
    by_cases same : k = c.key
    · rwa [same]
    · rw [Function.update_of_ne same] at present
      exact keys k present
  cases c with
  | add key val =>
      simp only [Call.apply]
      split_ifs
      · exact keys
      · exact updated val
  | update key val =>
      simp only [Call.apply]
      split_ifs
      · exact updated val
      · exact keys
  | addOrUpdate key val => exact updated val
  | getProof key => exact keys

namespace Holds

variable {s : MemStore} {t : SparseTree Word} {m : Map} {key val : Word}

theorem mem_keys (holds : Holds H depth s t m) (k : Word) :
    k ∈ t.leaves.map Prod.fst ↔ (m k).isSome := by
  rw [← holds.lookup, Option.isSome_iff_exists]
  simp only [SparseTree.lookup_eq_some_iff holds.stores.shaped.ordered, List.mem_map]
  constructor
  · rintro ⟨⟨found, value⟩, member, rfl⟩
    exact ⟨value, member⟩
  · rintro ⟨value, member⟩
    exact ⟨(k, value), member, rfl⟩

theorem short_iff (holds : Holds H depth s t m) (positive : 0 < depth) (stored : (m key).isSome) :
    (t.sides key 0).length < depth ↔
      ∀ other, (m other).isSome → SparseTree.Agree key other 0 (depth - 1) → other = key := by
  rw [SparseTree.sides_lt_iff holds.stores.shaped positive]
  constructor
  · intro unique other present agree
    exact unique other ((holds.mem_keys other).2 present) key
      ((holds.mem_keys key).2 stored) agree fun _ _ => rfl
  · intro alone a inA b inB agreeA agreeB
    rw [alone a ((holds.mem_keys a).1 inA) agreeA, alone b ((holds.mem_keys b).1 inB) agreeB]

theorem exists_add (holds : Holds H depth s t m) (keys : Bounded depth m) (absent : m key = none)
    (bound : key.toNat < 2 ^ depth) (val : Word) :
    ∃ t', t.add key val depth 0 = some t' := by
  rw [← Option.isSome_iff_exists]
  refine SparseTree.add_isSome val holds.stores.shaped.height (fun entry member =>
    ?_) holds.stores.shaped.ordered
  by_contra same
  push Not at same
  have stored := (holds.mem_keys entry.1).1 (List.mem_map_of_mem member)
  have equal := agree_full bound (keys entry.1 stored) same
  rw [← equal, absent] at stored
  cases stored

theorem exists_set (holds : Holds H depth s t m) {old : Word} (stored : m key = some old) (val : Word) :
    ∃ t', t.set key val 0 = some (old, t') := by
  have looked := holds.lookup key
  rw [stored] at looked
  cases done : t.set key val 0 with
  | none =>
      rw [SparseTree.set_eq_none_iff, looked] at done
      cases done
  | some found =>
      obtain ⟨old', t'⟩ := found
      have same := SparseTree.lookup_of_set done
      rw [looked, Option.some.injEq] at same
      exact ⟨t', by rw [same]⟩

theorem after {s' : MemStore} {t' : SparseTree Word} (holds : Holds H depth s t m)
    (staged : Staged H depth s' t')
    (lookup : ∀ other, t'.lookup other 0 = if other = key then some val else t.lookup other 0) :
    Holds H depth s' t' (Function.update m key (some val)) := by
  refine ⟨staged.mem, fun k => ?_⟩
  rw [lookup, holds.lookup, Function.update_apply]

theorem add_some {t' : SparseTree Word} (holds : Holds H depth s t m) (bound : depth ≤ 256)
    (done : t.add key val depth 0 = some t') :
    SparseMerkleTree.add H depth key val s = .error .poseidonHash ∨
      ∃ s', SparseMerkleTree.add H depth key val s = .ok (.ok (), s') ∧
        Holds H depth s' t' (Function.update m key (some val)) := by
  cases hashed : t'.commit H with
  | none => exact .inl (SparseMerkleTree.add_panics holds.stores bound done hashed)
  | some r =>
      obtain ⟨s', run, staged, _⟩ := SparseMerkleTree.add_done holds.stores bound done hashed
      exact .inr ⟨s', run, holds.after staged (SparseTree.lookup_add holds.stores.shaped.ordered done)⟩

theorem add_stored (holds : Holds H depth s t m) (bound : depth ≤ 256) {old : Word}
    (stored : m key = some old) :
    SparseMerkleTree.add H depth key val s = .ok (.error .alreadyPresent, s) :=
  SparseMerkleTree.add_present holds.stores bound ((holds.lookup key).trans stored)

theorem update_short (holds : Holds H depth s t m) (bound : depth ≤ 256) {old : Word}
    (stored : m key = some old) (short : (t.sides key 0).length < depth) :
    SparseMerkleTree.update H depth key val s = .error .poseidonHash ∨
      ∃ s' t', SparseMerkleTree.update H depth key val s = .ok (.ok old, s') ∧
        Holds H depth s' t' (Function.update m key (some val)) := by
  obtain ⟨t', done⟩ := holds.exists_set stored val
  cases hashed : t'.commit H with
  | none => exact .inl (SparseMerkleTree.update_panics holds.stores bound done short hashed)
  | some r =>
      obtain ⟨s', run, staged, _⟩ := SparseMerkleTree.update_done holds.stores bound done short hashed
      exact .inr ⟨s', t', run, holds.after staged (SparseTree.lookup_set holds.stores.shaped.ordered done)⟩

theorem getLeaf (holds : Holds H depth s t m) (bound : depth ≤ 256) (positive : 0 < depth) (key : Word) :
    Call.exec H depth (.getProof key) s =
      .ok (.ok (.leaf (if (t.sides key 0).length < depth then m key else none)), s) := by
  obtain ⟨hashes, committed, run⟩ := SparseMerkleTree.getProof_run key holds.stores bound positive
  refine (Exec.bind_ok run).trans ?_
  rw [SparseMerkleTree.getLeaf_proofOf, holds.lookup, committed.length_eq, Exec.pure_run]

variable {c : Call}

theorem call (holds : Holds H depth s t m) (keys : Bounded depth m) (bound : depth ≤ 256)
    (positive : 0 < depth)
    (small : c.key.toNat < 2 ^ depth) (hashed : c.exec H depth s ≠ .error .poseidonHash)
    (reach : c.Addressable depth m) :
    ∃ s' t', c.exec H depth s = .ok (c.answer m, s') ∧
      ((c.answer m).toBool = false → s'.root = s.root) ∧ Holds H depth s' t' (c.apply m) := by
  cases c with
  | add key val =>
      cases stored : m key with
      | none =>
          obtain ⟨t', done⟩ := holds.exists_add keys stored small val
          rcases holds.add_some bound done with refused | ⟨s', run, held⟩
          · exact absurd (Exec.bind_panic refused) hashed
          · refine ⟨s', t', (Exec.bind_ok run).trans ?_, ?_, ?_⟩
            · simp [Call.answer, stored, Exec.pure_run]
            · simp [Call.answer, stored, Except.toBool]
            · simpa [Call.apply, Call.key, stored] using held
      | some old =>
          refine ⟨s, t, (Exec.bind_throw (holds.add_stored bound stored)).trans ?_, fun _ => rfl, ?_⟩
          · simp [Call.answer, stored]
          · simpa [Call.apply, stored] using holds
  | update key val =>
      cases stored : m key with
      | none =>
          have missing : t.lookup key 0 = none := (holds.lookup key).trans stored
          have run : SparseMerkleTree.update H depth key val s = _ :=
            SparseMerkleTree.update_missing holds.stores bound (.inl missing)
          refine ⟨s, t, (Exec.bind_throw run).trans ?_, fun _ => rfl, ?_⟩
          · simp [Call.answer, stored]
          · simpa [Call.apply, stored] using holds
      | some old =>
          have isStored : (m key).isSome := by simp [stored]
          have short := (holds.short_iff positive isStored).2 (reach isStored)
          rcases holds.update_short bound stored short with refused | ⟨s', t', run, held⟩
          · exact absurd (Exec.bind_panic refused) hashed
          · refine ⟨s', t', (Exec.bind_ok run).trans ?_, ?_, ?_⟩
            · simp [Call.answer, stored, Exec.pure_run]
            · simp [Call.answer, stored, Except.toBool]
            · simpa [Call.apply, Call.key, stored] using held
  | addOrUpdate key val =>
      cases stored : m key with
      | none =>
          obtain ⟨t', done⟩ := holds.exists_add keys stored small val
          rcases holds.add_some bound done with refused | ⟨s', run, held⟩
          · exact absurd (Exec.bind_panic (addOrUpdate_of_add refused (by simp))) hashed
          · exact ⟨s', t', Exec.bind_ok (addOrUpdate_of_add run (by simp)), by simp [Call.answer,
              Except.toBool], held⟩
      | some old =>
          have isStored : (m key).isSome := by simp [stored]
          have short := (holds.short_iff positive isStored).2 (reach isStored)
          -- `add` refuses the stored key, and the call goes on to update it.
          have present : SparseMerkleTree.add H depth key val s = _ := holds.add_stored bound stored
          rcases holds.update_short bound stored short with refused | ⟨s', t', run, held⟩
          · exact absurd (Exec.bind_panic ((addOrUpdate_of_present present).trans
              (Exec.bind_panic refused))) hashed
          · have done := (addOrUpdate_of_present present).trans (Exec.bind_ok run)
            exact ⟨s', t', Exec.bind_ok done, by simp [Call.answer, Except.toBool], held⟩
  | getProof key =>
      refine ⟨s, t, ?_, fun _ => rfl, holds⟩
      rw [holds.getLeaf bound positive]
      cases stored : m key with
      | none => simp [Call.answer, stored]
      | some old =>
          have isStored : (m key).isSome := by simp [stored]
          simp [Call.answer, stored, (holds.short_iff positive isStored).2 (reach isStored)]

/-- A call that reaches for a key at the last level is not answered as the map answers it. -/
theorem call_differs (holds : Holds H depth s t m) (bound : depth ≤ 256) (positive : 0 < depth)
    (deep : ¬ c.Addressable depth m) (s' : MemStore) : c.exec H depth s ≠ .ok (c.answer m, s') := by
  have long {key old : Word} (stored : m key = some old)
      (shares : ¬ ∀ other, (m other).isSome → SparseTree.Agree key other 0 (depth - 1) → other = key) :
      depth ≤ (t.sides key 0).length := by
    rw [← holds.short_iff positive (by simp [stored])] at shares
    omega
  cases c with
  | add key val => exact absurd trivial deep
  | update key val =>
      obtain ⟨isStored, shares⟩ := Classical.not_imp.1 deep
      obtain ⟨old, stored⟩ := Option.isSome_iff_exists.1 isStored
      intro same
      have run : SparseMerkleTree.update H depth key val s = _ :=
        SparseMerkleTree.update_missing holds.stores bound (.inr (long stored shares))
      have equal := (Exec.bind_throw run).symm.trans same
      simp [Call.answer, stored] at equal
  | addOrUpdate key val =>
      obtain ⟨isStored, shares⟩ := Classical.not_imp.1 deep
      obtain ⟨old, stored⟩ := Option.isSome_iff_exists.1 isStored
      have present : SparseMerkleTree.add H depth key val s = _ := holds.add_stored bound stored
      have missing : SparseMerkleTree.update H depth key val s = _ :=
        SparseMerkleTree.update_missing holds.stores bound (.inr (long stored shares))
      have run := (addOrUpdate_of_present present).trans (Exec.bind_throw missing)
      intro same
      have equal := (Exec.bind_throw run).symm.trans same
      simp [Call.answer] at equal
  | getProof key =>
      obtain ⟨isStored, shares⟩ := Classical.not_imp.1 deep
      obtain ⟨old, stored⟩ := Option.isSome_iff_exists.1 isStored
      rw [holds.getLeaf bound positive, if_neg (Nat.not_lt.2 (long stored shares))]
      simp [Call.answer, stored]

theorem hashes_cons {calls : List Call} (hashed : Hashes H depth (c :: calls) s) :
    c.exec H depth s ≠ .error .poseidonHash ∧
      ∀ a s', c.exec H depth s = .ok (a, s') → Hashes H depth calls s' := by
  constructor
  · intro refused
    simp [Hashes, refused] at hashed
  · intro a s' run
    simpa [Hashes, run] using hashed

theorem agrees_iff {calls : List Call} (holds : Holds H depth s t m) (keys : Bounded depth m)
    (bound : depth ≤ 256) (positive : 0 < depth)
    (small : ∀ c ∈ calls, c.key.toNat < 2 ^ depth) (hashed : Hashes H depth calls s) :
    Agrees H depth calls s m ↔ Addressable depth calls m := by
  induction calls generalizing s t m with
  | nil => exact Iff.rfl
  | cons c calls ih =>
      obtain ⟨first, rest⟩ := hashes_cons hashed
      have smallRest := fun c' inside => small c' (List.mem_cons_of_mem c inside)
      constructor
      · rintro ⟨s', run, root, agree⟩
        have reach : c.Addressable depth m := by
          by_contra deep
          exact holds.call_differs bound positive deep s' run
        obtain ⟨s₁, t₁, run₁, _, held⟩ := holds.call keys bound positive
          (small c List.mem_cons_self) first reach
        have same : s₁ = s' := by
          have equal := run₁.symm.trans run
          simpa using equal
        subst same
        exact ⟨reach, (ih held (keys.apply (small c List.mem_cons_self)) smallRest (rest _ _ run)).1 agree⟩
      · rintro ⟨reach, reachRest⟩
        obtain ⟨s', t', run, root, held⟩ := holds.call keys bound positive
          (small c List.mem_cons_self) first reach
        exact ⟨s', run, root, (ih held (keys.apply (small c List.mem_cons_self)) smallRest
          (rest _ _ run)).2 reachRest⟩

end Holds

theorem holds_new (H : IdealHash Word) (depth : Nat) : Holds H depth MemStore.new .empty fun _ => none where
  stores := stores_new H depth
  lookup _ := rfl

theorem bounded_none (depth : Nat) : Bounded depth fun _ => none := fun k none => by cases none

/-- The answers are those of a finite map exactly if no call but `add` reaches for a stored key that
another stored key matches in all bits but the last. -/
theorem agrees_iff_addressable {H : IdealHash Word} {depth : Nat} {calls : List Call} (bound : depth ≤ 256)
    (positive : 0 < depth) (small : ∀ c ∈ calls, c.key.toNat < 2 ^ depth)
    (hashed : Hashes H depth calls MemStore.new) :
    Agrees H depth calls MemStore.new (fun _ => none) ↔ Addressable depth calls fun _ => none :=
  (holds_new H depth).agrees_iff (bounded_none depth) bound positive small hashed

namespace DeepestBit

-- Hashes of trees over the keys 0, 1 and 2.
def hash : IdealHash Word :=
  .ofTable [([0, 7, 1], 101), ([2, 8, 1], 102), ([101, 102], 103), ([103, 0], 104), ([1, 8, 1], 105),
    ([101, 105], 106), ([0, 9, 1], 107), ([107, 105], 108), ([102, 105], 109), ([2, 9, 1], 110)]
    (by decide) (by decide)

def shallow : List Call := [.add 0 7, .add 1 8, .update 0 9, .addOrUpdate 1 8, .getProof 0]

def deepest : List Call := [.add 0 7, .add 2 8, .update 0 9]

theorem agrees_iff_addressable_shallow :
    Agrees hash 2 shallow MemStore.new (fun _ => none) ↔ Addressable 2 shallow fun _ => none :=
  agrees_iff_addressable (by decide) (by decide) (by decide) (by decide +kernel)

/-- Every hash is defined, and `update` still does not find a key that `add` has just stored. -/
theorem not_agrees_deepest : 0 < 2 ∧ 2 ≤ 256 ∧ (∀ c ∈ deepest, c.key.toNat < 2 ^ 2) ∧
    Hashes hash 2 deepest MemStore.new ∧ ¬ Agrees hash 2 deepest MemStore.new fun _ => none := by
  have hashed : Hashes hash 2 deepest MemStore.new := by decide +kernel
  refine ⟨by decide, by decide, by decide, hashed, fun agree => ?_⟩
  obtain ⟨_, _, update, _⟩ := ((holds_new hash 2).agrees_iff (bounded_none 2) (by decide) (by decide)
    (by decide) hashed).1 agree
  have alone := update rfl 2 rfl fun j inside => by
    have first : j = 0 := by omega
    subst first
    decide
  exact absurd alone (by decide)

end DeepestBit

end Mootvote.SmtCircom
