import Mootvote.Circom.TallyReference
import Mootvote.Shared.Fallible
import Mootvote.Shared.SparseOpening

set_option autoImplicit false

/-!
# The tallier's Merkle tree

`@iden3/js-merkletree` is not part of the repository. The tallier takes it as a parameter that is a map
from indices to values with valid proofs.
-/

namespace Mootvote.Frontend

open Shared SparseMerkle

inductive JsError
  | error (message : String)
  | syntaxError
  | typeError
  | entryIndexAlreadyExists
  | reachedMaxLevel
  -- The hash at hand is not defined on these inputs.
  | poseidon (inputs : List Fr)
deriving DecidableEq

def poseidon (H : IdealHash Fr) (inputs : List Fr) : Except JsError Fr :=
  match H.hash inputs with
  | some h => .ok h
  | none => .error (.poseidon inputs)

theorem poseidon_ok_iff {H : IdealHash Fr} {inputs : List Fr} {h : Fr} :
    poseidon H inputs = .ok h ↔ H.hash inputs = some h := by
  unfold poseidon
  cases H.hash inputs <;> simp

theorem poseidon_error_iff {H : IdealHash Fr} {inputs : List Fr} {e : JsError} :
    poseidon H inputs = .error e ↔ H.hash inputs = none ∧ e = .poseidon inputs := by
  unfold poseidon
  cases H.hash inputs <;> simp [eq_comm]

-- Of a proof, what the tallier reads.
structure CircomProcessorProof where
  siblings : List Fr
  oldKey : Fr
  oldValue : Fr
  isOld0 : Bool

structure CircomVerifierProof where
  siblings : List Fr
  oldKey : Fr
  oldValue : Fr
  fnc : Nat

def CircomProcessorProof.opening (p : CircomProcessorProof) : Opening Fr :=
  { siblings := p.siblings, isOld0 := p.isOld0, oldKey := p.oldKey, oldValue := p.oldValue }

def CircomVerifierProof.withIsOld0 (p : CircomVerifierProof) (isOld0 : Bool) : CircomProcessorProof :=
  { siblings := p.siblings, oldKey := p.oldKey, oldValue := p.oldValue, isOld0 }

/-- The library's class. Its methods change the tree only where they do not throw. -/
structure Merkletree where
  Tree : Type
  empty : Tree
  root : Tree → Fr
  add : Tree → Nat → Fr → Except JsError Tree
  addAndGetCircomProof : Tree → Nat → Fr → Except JsError (CircomProcessorProof × Tree)
  update : Tree → Nat → Fr → Except JsError (CircomProcessorProof × Tree)
  -- For the current root, which `ZERO_HASH` stands for.
  generateCircomVerifierProof : Tree → Nat → Except JsError CircomVerifierProof

/-- The second tree binds `key` to the value, and the rest as the first does. -/
def Binds (t t' : SparseTree Fr) (key value : Fr) : Prop :=
  ∀ other, t'.lookup other 0 = if other = key then some value else t.lookup other 0

/-- Why a value cannot be stored at an index: a hash that is not defined, or another index with the same bits
on all levels but the last. -/
def Refused (H : IdealHash Fr) (depth : Nat) (t : SparseTree Fr) (idx : Nat) (e : JsError) : Prop :=
  (∃ inputs, e = .poseidon inputs ∧ H.hash inputs = none) ∨
    e = .reachedMaxLevel ∧ ∃ entry ∈ t.leaves, entry.1.val ≠ idx ∧
      entry.1.val % 2 ^ (depth - 1) = idx % 2 ^ (depth - 1)

/-- The library is a map with valid proofs, on trees whose leaves lie above the last of the levels. -/
structure Merkletree.Correct (lib : Merkletree) (H : IdealHash Fr) (depth : Nat)
    (tree : lib.Tree → SparseTree Fr) : Prop where
  empty : tree lib.empty = .empty
  shaped : ∀ mt, (tree mt).Shaped (depth - 1)
  root : ∀ mt, (tree mt).commit H = some (lib.root mt)
  add_exists : ∀ mt idx value, idx < 2 ^ depth →
    (lib.add mt idx value = .error .entryIndexAlreadyExists ↔ (tree mt).lookup (idx : Fr) 0 ≠ none)
  add_ok : ∀ mt idx value mt', idx < 2 ^ depth → lib.add mt idx value = .ok mt' →
    Binds (tree mt) (tree mt') (idx : Fr) value
  add_error : ∀ mt idx value e, idx < 2 ^ depth → lib.add mt idx value = .error e →
    e ≠ .entryIndexAlreadyExists → Refused H depth (tree mt) idx e
  addAndGetCircomProof_exists : ∀ mt idx value, idx < 2 ^ depth →
    (lib.addAndGetCircomProof mt idx value = .error .entryIndexAlreadyExists ↔
      (tree mt).lookup (idx : Fr) 0 ≠ none)
  addAndGetCircomProof_ok : ∀ mt idx value proof mt', idx < 2 ^ depth →
    lib.addAndGetCircomProof mt idx value = .ok (proof, mt') →
      Binds (tree mt) (tree mt') (idx : Fr) value ∧ proof.siblings.length = depth ∧
        proof.opening.Inserts H (lib.root mt) (idx : Fr) value (lib.root mt')
  addAndGetCircomProof_error : ∀ mt idx value e, idx < 2 ^ depth →
    lib.addAndGetCircomProof mt idx value = .error e → e ≠ .entryIndexAlreadyExists →
      Refused H depth (tree mt) idx e
  update_ok : ∀ mt idx value proof mt', idx < 2 ^ depth → lib.update mt idx value = .ok (proof, mt') →
    Binds (tree mt) (tree mt') (idx : Fr) value ∧ proof.siblings.length = depth ∧ proof.isOld0 = false ∧
      proof.opening.Updates H (lib.root mt) (idx : Fr) value (lib.root mt')
  update_error : ∀ mt idx value e, idx < 2 ^ depth → lib.update mt idx value = .error e →
    (tree mt).lookup (idx : Fr) 0 ≠ none → Refused H depth (tree mt) idx e
  generateCircomVerifierProof_ok : ∀ mt idx, idx < 2 ^ depth →
    ∃ proof, lib.generateCircomVerifierProof mt idx = .ok proof ∧ proof.siblings.length = depth ∧
      match (tree mt).lookup (idx : Fr) 0 with
      | some value => proof.fnc = 0 ∧
          (proof.withIsOld0 false).opening.Verifies H (lib.root mt) (idx : Fr) (some value)
      -- The path of an absent index ends in an empty slot or at another leaf.
      | none => proof.fnc = 1 ∧
          (proof.oldValue = 0 ∧
              (proof.withIsOld0 true).opening.Verifies H (lib.root mt) (idx : Fr) none ∨
            (proof.oldKey, proof.oldValue) ∈ (tree mt).leaves ∧
              (proof.withIsOld0 false).opening.Verifies H (lib.root mt) (idx : Fr) none)

section kept

variable {H : IdealHash Fr} {depth : Nat}

def hashTree (H : IdealHash Fr) : SparseTree Fr → Except JsError Fr
  | .empty => .ok 0
  | .leaf key value => poseidon H [key, value, 1]
  | .node left right => do
      let l ← hashTree H left
      let r ← hashTree H right
      poseidon H [l, r]

theorem hashTree_ok_iff {t : SparseTree Fr} {root : Fr} :
    hashTree H t = .ok root ↔ t.commit H = some root := by
  induction t generalizing root with
  | empty => simp [hashTree, SparseTree.commit]
  | leaf => exact poseidon_ok_iff
  | node left right ihLeft ihRight =>
      simp only [hashTree, bind_ok_iff, poseidon_ok_iff, ihLeft, ihRight, SparseTree.commit_node_iff]
      constructor
      · rintro ⟨l, isL, r, isR, hashed⟩
        exact ⟨l, r, isL, isR, hashed⟩
      · rintro ⟨l, r, isL, isR, hashed⟩
        exact ⟨l, isL, r, isR, hashed⟩

theorem hashTree_error {t : SparseTree Fr} {e : JsError} (failed : hashTree H t = .error e) :
    ∃ inputs, e = .poseidon inputs ∧ H.hash inputs = none := by
  induction t with
  | empty => cases failed
  | leaf =>
      obtain ⟨undefined, rfl⟩ := poseidon_error_iff.1 failed
      exact ⟨_, rfl, undefined⟩
  | node left right ihLeft ihRight =>
      simp only [hashTree, bind_error_iff] at failed
      rcases failed with inLeft | ⟨l, _, inRight | ⟨r, _, atNode⟩⟩
      · exact ihLeft inLeft
      · exact ihRight inRight
      · obtain ⟨undefined, rfl⟩ := poseidon_error_iff.1 atNode
        exact ⟨_, rfl, undefined⟩

structure KeptTree (H : IdealHash Fr) (depth : Nat) where
  tree : SparseTree Fr
  shaped : tree.Shaped (depth - 1)
  root : Fr
  committed : tree.commit H = some root

namespace KeptTree

def keep (tree : SparseTree Fr) (shaped : tree.Shaped (depth - 1)) : Except JsError (KeptTree H depth) :=
  match hashed : hashTree H tree with
  | .ok root => .ok { tree, shaped, root, committed := hashTree_ok_iff.1 hashed }
  | .error e => .error e

def add (mt : KeptTree H depth) (idx : Nat) (value : Fr) : Except JsError (KeptTree H depth) :=
  if mt.tree.lookup (idx : Fr) 0 ≠ none then .error .entryIndexAlreadyExists
  else
    match done : mt.tree.add (idx : Fr) value (depth - 1) 0 with
    | some tree => keep tree (mt.shaped.add done)
    | none => .error .reachedMaxLevel

def set (mt : KeptTree H depth) (idx : Nat) (value : Fr) : Except JsError (KeptTree H depth) :=
  match done : mt.tree.set (idx : Fr) value 0 with
  | some (_, tree) => keep tree (mt.shaped.set done)
  | none => .error .reachedMaxLevel

def openingAt (mt : KeptTree H depth) (idx : Nat) : Opening Fr :=
  (mt.tree.slot (idx : Fr) 0).openingOf
    ((mt.tree.sides (idx : Fr) 0).map fun side => (side.commit H).getD 0) depth

def proofAt (mt : KeptTree H depth) (idx : Nat) : CircomProcessorProof :=
  { siblings := (mt.openingAt idx).siblings, oldKey := (mt.openingAt idx).oldKey,
    oldValue := (mt.openingAt idx).oldValue, isOld0 := (mt.openingAt idx).isOld0 }

def addAndGetCircomProof (mt : KeptTree H depth) (idx : Nat) (value : Fr) :
    Except JsError (CircomProcessorProof × KeptTree H depth) := do
  let mt' ← mt.add idx value
  return (mt.proofAt idx, mt')

def update (mt : KeptTree H depth) (idx : Nat) (value : Fr) :
    Except JsError (CircomProcessorProof × KeptTree H depth) := do
  let mt' ← mt.set idx value
  return (mt.proofAt idx, mt')

def verifierProof (mt : KeptTree H depth) (idx : Nat) : CircomVerifierProof :=
  { siblings := (mt.openingAt idx).siblings, oldKey := (mt.openingAt idx).oldKey,
    oldValue := (mt.openingAt idx).oldValue, fnc := if mt.tree.lookup (idx : Fr) 0 = none then 1 else 0 }

theorem keep_ok {tree : SparseTree Fr} {shaped : tree.Shaped (depth - 1)} {mt : KeptTree H depth}
    (done : keep tree shaped = .ok mt) : mt.tree = tree := by
  unfold keep at done
  split at done
  · cases done
    rfl
  · cases done

theorem keep_error {tree : SparseTree Fr} {shaped : tree.Shaped (depth - 1)} {e : JsError}
    (failed : keep (H := H) tree shaped = .error e) :
      ∃ inputs, e = .poseidon inputs ∧ H.hash inputs = none := by
  unfold keep at failed
  split at failed
  · cases failed
  · next hashed =>
      cases failed
      exact hashTree_error hashed

variable {mt mt' : KeptTree H depth} {idx : Nat} {value : Fr} {e : JsError}

theorem add_ok (done : mt.add idx value = .ok mt') :
    mt.tree.add (idx : Fr) value (depth - 1) 0 = some mt'.tree := by
  unfold add at done
  split_ifs at done
  split at done
  · next tree added =>
      rw [keep_ok done]
      exact added
  · cases done

theorem set_ok (done : mt.set idx value = .ok mt') :
    ∃ old, mt.tree.set (idx : Fr) value 0 = some (old, mt'.tree) := by
  unfold set at done
  split at done
  · next old tree replaced =>
      rw [keep_ok done]
      exact ⟨old, replaced⟩
  · cases done

theorem openingAt_siblings (positive : 0 < depth) (mt : KeptTree H depth) (idx : Nat) :
    List.Forall₂ (fun side h => SparseTree.commit H side = some h) (mt.tree.sides (idx : Fr) 0)
        ((mt.tree.sides (idx : Fr) 0).map fun side => (side.commit H).getD 0) ∧
      ((mt.tree.sides (idx : Fr) 0).map fun side => (side.commit H).getD 0).length < depth := by
  refine ⟨?_, ?_⟩
  · obtain ⟨hashes, beside⟩ := exists_beside (idx : Fr) 0 mt.committed
    generalize mt.tree.sides (idx : Fr) 0 = sides at beside ⊢
    induction beside with
    | nil => exact .nil
    | cons first _ ih => exact .cons (by simp [first]) ih
  · have bound := (mt.tree.length_sides_le (idx : Fr) 0).trans mt.shaped.height
    rw [List.length_map]
    omega

theorem exists_neighbour (small : depth < 254) (inside : idx < 2 ^ depth)
    (absent : mt.tree.lookup (idx : Fr) 0 = none)
    (full : mt.tree.add (idx : Fr) value (depth - 1) 0 = none) :
    ∃ entry ∈ mt.tree.leaves, entry.1.val ≠ idx ∧
      entry.1.val % 2 ^ (depth - 1) = idx % 2 ^ (depth - 1) := by
  have own : (idx : Fr).val = idx := val_cast_fin small ⟨idx, inside⟩
  by_contra alone
  push Not at alone
  have apart : ∀ entry ∈ mt.tree.leaves, ∃ j < depth - 1,
      KeyBits.bit (idx : Fr) (0 + j) ≠ KeyBits.bit entry.1 (0 + j) := by
    intro entry member
    by_contra same
    push Not at same
    have other : entry.1.val ≠ idx := by
      intro equal
      rw [SparseTree.lookup_eq_none_iff mt.shaped.ordered] at absent
      refine absent entry.2 ?_
      rwa [← equal, ZMod.natCast_zmod_val]
    refine alone entry member other (Nat.eq_of_testBit_eq fun j => ?_)
    rw [Nat.testBit_mod_two_pow, Nat.testBit_mod_two_pow]
    by_cases low : j < depth - 1
    · have shared := same j low
      rw [Nat.zero_add] at shared
      have bits : idx.testBit j = entry.1.val.testBit j := by
        rw [← own]
        exact shared
      rw [bits]
    · simp [low]
  have placed := SparseTree.add_isSome value mt.shaped.height apart mt.shaped.ordered
  rw [full] at placed
  cases placed

theorem add_error (small : depth < 254) (inside : idx < 2 ^ depth) (failed : mt.add idx value = .error e)
    (other : e ≠ .entryIndexAlreadyExists) : Refused H depth mt.tree idx e := by
  unfold add at failed
  split_ifs at failed with present
  · cases failed
    exact absurd rfl other
  · split at failed
    · exact .inl (keep_error failed)
    · next full =>
        cases failed
        exact .inr ⟨rfl, exists_neighbour small inside (by simpa using present) full⟩

theorem add_exists : mt.add idx value = .error .entryIndexAlreadyExists ↔ mt.tree.lookup
    (idx : Fr) 0 ≠ none := by
  unfold add
  split_ifs with present
  · simp [present]
  · simp only [present, iff_false]
    split
    · intro failed
      obtain ⟨_, same, _⟩ := keep_error failed
      cases same
    · simp

theorem openingAt_length (positive : 0 < depth) (mt : KeptTree H depth) (idx : Nat) :
    (mt.openingAt idx).siblings.length = depth := by
  have short := (openingAt_siblings positive mt idx).2
  rw [openingAt, openingOf_siblings, List.length_append, List.length_replicate]
  omega

theorem addAndGetCircomProof_exists : mt.addAndGetCircomProof idx value = .error .entryIndexAlreadyExists ↔
    mt.tree.lookup (idx : Fr) 0 ≠ none := by
  rw [← @add_exists H depth mt idx value, addAndGetCircomProof, bind_error_iff]
  simp [pure, Except.pure]

theorem addAndGetCircomProof_ok (positive : 0 < depth) {proof : CircomProcessorProof}
    (done : mt.addAndGetCircomProof idx value = .ok (proof, mt')) :
    Binds mt.tree mt'.tree (idx : Fr) value ∧ proof.siblings.length = depth ∧
      proof.opening.Inserts H mt.root (idx : Fr) value mt'.root := by
  obtain ⟨_, isAdded, same⟩ := bind_ok_iff.1 done
  cases same
  obtain ⟨beside, short⟩ := openingAt_siblings positive mt idx
  have levels := SparseTree.add_succ (add_ok isAdded)
  rw [Nat.sub_add_cancel positive] at levels
  exact ⟨SparseTree.lookup_add mt.shaped.ordered (add_ok isAdded), openingAt_length positive mt idx,
    opening_inserts mt.shaped.compact mt.committed beside short levels mt'.committed⟩

theorem openingAt_present (found : mt.tree.lookup (idx : Fr) 0 = some value) :
    (mt.openingAt idx).isOld0 = false := openingOf_occupied found

theorem update_ok (positive : 0 < depth) {proof : CircomProcessorProof}
    (done : mt.update idx value = .ok (proof, mt')) :
    Binds mt.tree mt'.tree (idx : Fr) value ∧ proof.siblings.length = depth ∧ proof.isOld0 = false ∧
      proof.opening.Updates H mt.root (idx : Fr) value mt'.root := by
  obtain ⟨_, isChanged, same⟩ := bind_ok_iff.1 done
  cases same
  obtain ⟨beside, short⟩ := openingAt_siblings positive mt idx
  obtain ⟨old, replaced⟩ := set_ok isChanged
  obtain ⟨value', found⟩ : ∃ value', mt.tree.lookup (idx : Fr) 0 = some value' := by
    rw [← Option.ne_none_iff_exists', Ne, ← SparseTree.set_eq_none_iff, replaced]
    exact Option.some_ne_none _
  exact ⟨SparseTree.lookup_set mt.shaped.ordered replaced, openingAt_length positive mt idx,
    openingAt_present found,
    opening_updates mt.shaped.compact mt.committed beside short replaced mt'.committed⟩

theorem update_error (failed : mt.update idx value = .error e)
    (present : mt.tree.lookup (idx : Fr) 0 ≠ none) : Refused H depth mt.tree idx e := by
  rw [update, bind_error_iff] at failed
  rcases failed with failed | ⟨_, _, nothing⟩
  · unfold KeptTree.set at failed
    split at failed
    · exact .inl (keep_error failed)
    · next absent => exact absurd (SparseTree.set_eq_none_iff.1 absent) present
  · cases nothing

theorem openingAt_absent (mt : KeptTree H depth) (idx : Nat) :
    (mt.openingAt idx).isOld0 = true ∧ (mt.openingAt idx).oldValue = 0 ∨
      (mt.openingAt idx).isOld0 = false ∧
        ((mt.openingAt idx).oldKey, (mt.openingAt idx).oldValue) ∈ mt.tree.leaves := by
  unfold openingAt
  rcases SparseTree.slot_cases (idx : Fr) 0 mt.tree with ends | ⟨key, value, ends, member⟩ <;> rw [ends]
  · exact .inl ⟨rfl, rfl⟩
  · exact .inr ⟨rfl, member⟩

theorem verifierProof_shows (positive : 0 < depth) (mt : KeptTree H depth) (idx : Nat) :
    match mt.tree.lookup (idx : Fr) 0 with
    | some value => (mt.verifierProof idx).fnc = 0 ∧
        ((mt.verifierProof idx).withIsOld0 false).opening.Verifies H mt.root (idx : Fr) (some value)
    | none => (mt.verifierProof idx).fnc = 1 ∧
        ((mt.verifierProof idx).oldValue = 0 ∧
            ((mt.verifierProof idx).withIsOld0 true).opening.Verifies H mt.root (idx : Fr) none ∨
          ((mt.verifierProof idx).oldKey, (mt.verifierProof idx).oldValue) ∈ mt.tree.leaves ∧
            ((mt.verifierProof idx).withIsOld0 false).opening.Verifies H mt.root (idx : Fr) none) := by
  obtain ⟨beside, short⟩ := openingAt_siblings positive mt idx
  split
  · next value found =>
      have shown := opening_includes mt.shaped.compact mt.committed beside short found
      refine ⟨by simp [verifierProof, found], ?_⟩
      rw [← openingAt_present found]
      exact shown
  · next found =>
      have shown := opening_excludes mt.shaped.compact mt.committed beside short found
      refine ⟨by simp [verifierProof, found], ?_⟩
      rcases openingAt_absent mt idx with ⟨free, zero⟩ | ⟨occupied, member⟩
      · refine .inl ⟨zero, ?_⟩
        rw [← free]
        exact shown
      · refine .inr ⟨member, ?_⟩
        rw [← occupied]
        exact shown

end KeptTree

def Merkletree.kept (H : IdealHash Fr) (depth : Nat) : Merkletree where
  Tree := KeptTree H depth
  empty := { tree := .empty, shaped := SparseTree.shaped_empty _, root := 0, committed := rfl }
  root := KeptTree.root
  add := KeptTree.add
  addAndGetCircomProof := KeptTree.addAndGetCircomProof
  update := KeptTree.update
  generateCircomVerifierProof mt idx := .ok (mt.verifierProof idx)

theorem Merkletree.kept_correct (H : IdealHash Fr) (positive : 0 < depth) (small : depth < 254) :
    (Merkletree.kept H depth).Correct H depth KeptTree.tree where
  empty := rfl
  shaped := KeptTree.shaped
  root := KeptTree.committed
  add_exists _ _ _ _ := KeptTree.add_exists
  add_ok mt _ _ _ _ done := SparseTree.lookup_add mt.shaped.ordered (KeptTree.add_ok done)
  add_error _ _ _ _ inside failed other := KeptTree.add_error small inside failed other
  addAndGetCircomProof_exists _ _ _ _ := KeptTree.addAndGetCircomProof_exists
  addAndGetCircomProof_ok _ _ _ _ _ _ done := KeptTree.addAndGetCircomProof_ok positive done
  addAndGetCircomProof_error mt idx value e inside failed other := by
    rcases bind_error_iff.1 failed with failed | ⟨_, _, nothing⟩
    · exact KeptTree.add_error small inside failed other
    · cases nothing
  update_ok _ _ _ _ _ _ done := KeptTree.update_ok positive done
  update_error _ _ _ _ _ failed present := KeptTree.update_error failed present
  generateCircomVerifierProof_ok mt idx _ :=
    ⟨_, rfl, KeptTree.openingAt_length positive mt idx, KeptTree.verifierProof_shows positive mt idx⟩

end kept

end Mootvote.Frontend
