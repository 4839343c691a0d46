import Mootvote.Shared.IdealHash
import Mootvote.Shared.SparseTree

set_option autoImplicit false

/-!
# Roots and openings of sparse trees

The root of a tree commits to it, so an opening that folds to the root shows what the tree holds
on a key's path, whoever chose the opening; and a root folded from a changed slot is the root of
the changed tree.
-/

namespace SparseMerkle

open Shared

variable {W : Type} [Zero W] [One W]

def leafHash (H : IdealHash W) (key value : W) : Option W := H.hash [key, value, 1]

/-- The hash of a node from the side its path does not take and the child it takes. -/
def joinHash (H : IdealHash W) (right : Bool) (side child : W) : Option W :=
  if right then H.hash [side, child] else H.hash [child, side]

def SparseTree.commit (H : IdealHash W) : SparseTree W → Option W
  | .empty => some 0
  | .leaf key value => leafHash H key value
  | .node left right => do
      let l ← left.commit H
      let r ← right.commit H
      H.hash [l, r]

namespace SparseTree

variable {H : IdealHash W}

theorem commit_node_iff {left right : SparseTree W} {root : W} :
    (node left right).commit H = some root ↔
      ∃ l r, left.commit H = some l ∧ right.commit H = some r ∧ H.hash [l, r] = some root := by
  simp [commit, Option.bind_eq_some_iff]

theorem commit_eq_zero {t : SparseTree W} (zero : t.commit H = some 0) : t = .empty := by
  cases t with
  | empty => rfl
  | leaf => exact absurd zero (H.ne_zero _)
  | node =>
      obtain ⟨l, r, _, _, hashed⟩ := commit_node_iff.1 zero
      exact absurd hashed (H.ne_zero _)

/-- A root determines its tree. -/
theorem commit_injective {t t' : SparseTree W} {root : W}
    (left : t.commit H = some root) (right : t'.commit H = some root) : t = t' := by
  induction t generalizing t' root with
  | empty =>
      cases left
      exact (commit_eq_zero right).symm
  | leaf key value =>
      cases t' with
      | empty =>
          cases right
          exact absurd left (H.ne_zero _)
      | leaf key' value' =>
          have same := H.injective left right
          simp only [List.cons.injEq, and_true] at same
          obtain ⟨rfl, rfl⟩ := same
          rfl
      | node =>
          -- A leaf hashes three words, a node two.
          obtain ⟨l, r, _, _, hashed⟩ := commit_node_iff.1 right
          have same := H.injective left hashed
          simp at same
  | node left₁ right₁ ihLeft ihRight =>
      obtain ⟨l, r, leftRoot, rightRoot, hashed⟩ := commit_node_iff.1 left
      cases t' with
      | empty =>
          cases right
          exact absurd hashed (H.ne_zero _)
      | leaf =>
          have same := H.injective right hashed
          simp at same
      | node left₂ right₂ =>
          obtain ⟨l', r', leftRoot', rightRoot', hashed'⟩ := commit_node_iff.1 right
          have same := H.injective hashed hashed'
          simp only [List.cons.injEq, and_true] at same
          obtain ⟨rfl, rfl⟩ := same
          rw [ihLeft leftRoot leftRoot', ihRight rightRoot rightRoot']

theorem commit_leaf_injective {t : SparseTree W} {key value root : W}
    (hashed : leafHash H key value = some root) (committed : t.commit H = some root) :
    t = .leaf key value :=
  commit_injective committed hashed

end SparseTree

section openings

variable [KeyBits W] (H : IdealHash W)

/-- Fold the hash of a slot up along the bits of `key` and the siblings, given from the root down. -/
def foldUp (key : W) : Nat → List W → W → Option W
  | _, [], slot => some slot
  | i, sibling :: rest, slot => do
      let child ← foldUp key (i + 1) rest slot
      joinHash H (bit key i) sibling child

/-- Push two leaves down, with zero siblings, to the first bit in which their keys differ. -/
def pushDown (key oldKey new old : W) : Nat → Nat → Option W
  | 0, _ => none
  | levels + 1, i =>
      if bit key i = bit oldKey i then do
        let below ← pushDown key oldKey new old levels (i + 1)
        joinHash H (bit key i) 0 below
      else joinHash H (bit key i) old new

variable [DecidableEq W]

def slotLevel : List W → Nat
  | [] => 0
  | sibling :: rest =>
      if slotLevel rest = 0 ∧ sibling = 0 then 0 else slotLevel rest + 1

omit [One W] [KeyBits W] in
theorem slotLevel_le (siblings : List W) : slotLevel siblings ≤ siblings.length := by
  induction siblings with
  | nil => simp [slotLevel]
  | cons sibling rest ih =>
      simp only [slotLevel, List.length_cons]
      split_ifs <;> omega

omit [One W] [KeyBits W] in
theorem slotLevel_lt {siblings : List W} (last : siblings.getLast? = some 0) :
    slotLevel siblings < siblings.length := by
  induction siblings with
  | nil => cases last
  | cons sibling rest ih =>
      cases rest with
      | nil =>
          rw [List.getLast?_singleton, Option.some.injEq] at last
          simp [slotLevel, last]
      | cons next rest =>
          have below := ih (by simpa using last)
          rw [slotLevel, List.length_cons]
          split_ifs <;> omega

/-- What a prover shows of a tree: the siblings of a path and what sits in its slot. -/
structure Opening (W : Type) where
  siblings : List W
  isOld0 : Bool
  oldKey : W
  oldValue : W
deriving DecidableEq

namespace Opening

variable (opening : Opening W)

def level : Nat := slotLevel opening.siblings

def rootOf (key slot : W) : Option W := foldUp H key 0 (opening.siblings.take opening.level) slot

def oldSlot : Option W :=
  if opening.isOld0 then some 0 else leafHash H opening.oldKey opening.oldValue

def shownSlot (key : W) : Option W → Option W
  | some value => leafHash H key value
  | none =>
      if opening.isOld0 = false ∧ opening.oldKey = key then none else opening.oldSlot H

def insertedSlot (key value : W) : Option W := do
  let new ← leafHash H key value
  if opening.isOld0 then some new
  else
    let old ← leafHash H opening.oldKey opening.oldValue
    pushDown H key opening.oldKey new old (opening.siblings.length - opening.level) opening.level

/-- The opening shows that the tree under `root` binds `key` to the value, or to none. -/
structure Verifies (root key : W) (value : Option W) : Prop where
  last : opening.siblings.getLast? = some 0
  fold : (opening.shownSlot H key value).bind (opening.rootOf H key) = some root

structure Inserts (oldRoot key value newRoot : W) : Prop where
  last : opening.siblings.getLast? = some 0
  before : (opening.oldSlot H).bind (opening.rootOf H key) = some oldRoot
  after : (opening.insertedSlot H key value).bind (opening.rootOf H key) = some newRoot

structure Updates (oldRoot key value newRoot : W) : Prop where
  last : opening.siblings.getLast? = some 0
  same : opening.oldKey = key
  before : (leafHash H opening.oldKey opening.oldValue).bind (opening.rootOf H key) = some oldRoot
  after : (leafHash H key value).bind (opening.rootOf H key) = some newRoot

end Opening

end openings

section paths

variable {H : IdealHash W}

theorem joinHash_commit {t : SparseTree W} {root side child : W} {right : Bool}
    (committed : t.commit H = some root) (joined : joinHash H right side child = some root) :
    ∃ l r, t = .node l r ∧ (if right then r else l).commit H = some child ∧
      (if right then l else r).commit H = some side := by
  have shape : ∃ a b, H.hash [a, b] = some root ∧ a = (if right then side else child) ∧
      b = (if right then child else side) := by
    cases right
    · exact ⟨child, side, joined, rfl, rfl⟩
    · exact ⟨side, child, joined, rfl, rfl⟩
  obtain ⟨a, b, hashed, ha, hb⟩ := shape
  cases t with
  | empty =>
      cases committed
      exact absurd hashed (H.ne_zero _)
  | leaf key value =>
      have same := H.injective committed hashed
      simp at same
  | node l r =>
      obtain ⟨hl, hr, leftRoot, rightRoot, hashed'⟩ := SparseTree.commit_node_iff.1 committed
      have same := H.injective hashed' hashed
      simp only [List.cons.injEq, and_true] at same
      obtain ⟨rfl, rfl⟩ := same
      cases right <;> simp_all

theorem commit_joinHash {l r : SparseTree W} (right : Bool) {side child root : W}
    (taken : (if right then r else l).commit H = some child)
    (other : (if right then l else r).commit H = some side)
    (joined : joinHash H right side child = some root) : (SparseTree.node l r).commit H = some root := by
  apply SparseTree.commit_node_iff.2
  cases right
  · exact ⟨child, side, taken, other, joined⟩
  · exact ⟨side, child, other, taken, joined⟩

variable [KeyBits W]

/-- Siblings that fold to the root of a tree are that tree's, and lead to the subtree in the slot. -/
theorem foldUp_descend {key : W} {i : Nat} {siblings : List W} {t : SparseTree W} {slot root : W}
    (committed : t.commit H = some root) (folded : foldUp H key i siblings slot = some root) :
    ∃ sub, t.descend key i siblings.length = some sub ∧ sub.commit H = some slot := by
  induction siblings generalizing i t root with
  | nil =>
      cases folded
      exact ⟨t, rfl, committed⟩
  | cons sibling rest ih =>
      obtain ⟨child, below, joined⟩ := Option.bind_eq_some_iff.1 folded
      obtain ⟨l, r, rfl, taken, _⟩ := joinHash_commit committed joined
      exact ih taken below

theorem foldUp_graft {key : W} {i : Nat} {siblings : List W} {t sub : SparseTree W}
    {slot root new newRoot : W}
    (committed : t.commit H = some root) (folded : foldUp H key i siblings slot = some root)
    (replaced : sub.commit H = some new) (refolded : foldUp H key i siblings new = some newRoot) :
    (t.graft key i siblings.length sub).commit H = some newRoot := by
  induction siblings generalizing i t root newRoot with
  | nil =>
      cases refolded
      exact replaced
  | cons sibling rest ih =>
      obtain ⟨child, below, joined⟩ := Option.bind_eq_some_iff.1 folded
      obtain ⟨child', below', joined'⟩ := Option.bind_eq_some_iff.1 refolded
      obtain ⟨l, r, rfl, taken, other⟩ := joinHash_commit committed joined
      have deeper := ih taken below below'
      cases side : bit key i <;> simp only [side, if_true] at taken other deeper joined'
      · simpa [SparseTree.graft, side] using commit_joinHash false deeper other joined'
      · simpa [SparseTree.graft, side] using commit_joinHash true deeper other joined'

omit [One W] in
theorem pushDown_self (key new old : W) (levels i : Nat) : pushDown H key key new old levels i = none := by
  induction levels generalizing i with
  | zero => rfl
  | succ levels ih => simp [pushDown, ih]

theorem pushDown_split {key value oldKey oldValue new old slot : W} {levels i : Nat}
    (newLeaf : leafHash H key value = some new) (oldLeaf : leafHash H oldKey oldValue = some old)
    (pushed : pushDown H key oldKey new old levels i = some slot) :
    ∃ sub, SparseTree.split key value oldKey oldValue levels i = some sub ∧ sub.commit H = some slot := by
  induction levels generalizing i slot with
  | zero => simp [pushDown] at pushed
  | succ levels ih =>
      simp only [pushDown] at pushed
      split_ifs at pushed with same
      · obtain ⟨below, deeper, joined⟩ := Option.bind_eq_some_iff.1 pushed
        obtain ⟨sub, isSplit, committed⟩ := ih deeper
        refine ⟨if bit key i then .node .empty sub else .node sub .empty, ?_, ?_⟩
        · simp only [SparseTree.split, same, if_true, isSplit, Option.map_some]
        · cases side : bit key i <;> rw [side] at joined
          · exact commit_joinHash false committed rfl joined
          · exact commit_joinHash true committed rfl joined
      · refine ⟨if bit key i then .node (.leaf oldKey oldValue) (.leaf key value)
          else .node (.leaf key value) (.leaf oldKey oldValue), ?_, ?_⟩
        · cases side : bit key i <;> simp_all [SparseTree.split]
        · cases side : bit key i <;> rw [side] at pushed
          · exact commit_joinHash false newLeaf oldLeaf pushed
          · exact commit_joinHash true newLeaf oldLeaf pushed

end paths

section completeness

variable [KeyBits W] {H : IdealHash W}

theorem foldUp_sides {key : W} {i : Nat} {t : SparseTree W} {root : W} {hashes : List W}
    (committed : t.commit H = some root)
    (beside : List.Forall₂ (fun side h => SparseTree.commit H side = some h) (t.sides key i) hashes) :
    ∃ slot, (t.slot key i).commit H = some slot ∧ foldUp H key i hashes slot = some root := by
  induction t generalizing i root hashes with
  | empty | leaf =>
      cases beside
      exact ⟨root, committed, rfl⟩
  | node left right ihLeft ihRight =>
      obtain ⟨l, r, leftRoot, rightRoot, hashed⟩ := SparseTree.commit_node_iff.1 committed
      rw [SparseTree.sides_node] at beside
      rw [SparseTree.slot_node]
      cases beside with
      | cons first rest =>
          cases side : bit key i <;> rw [side] at first rest
          · obtain ⟨slot, isSlot, folded⟩ := ihLeft leftRoot rest
            refine ⟨slot, isSlot, ?_⟩
            rw [Option.some.inj (rightRoot.symm.trans first)] at hashed
            simpa [foldUp, folded, joinHash, side] using hashed
          · obtain ⟨slot, isSlot, folded⟩ := ihRight rightRoot rest
            refine ⟨slot, isSlot, ?_⟩
            rw [Option.some.inj (leftRoot.symm.trans first)] at hashed
            simpa [foldUp, folded, joinHash, side] using hashed

omit [One W] in
theorem foldUp_injective {key : W} {i : Nat} {siblings : List W} {slot slot' root : W}
    (left : foldUp H key i siblings slot = some root) (right : foldUp H key i siblings slot' = some root) :
    slot = slot' := by
  induction siblings generalizing i root with
  | nil => exact Option.some.inj (left.trans right.symm)
  | cons sibling rest ih =>
      obtain ⟨child, below, joined⟩ := Option.bind_eq_some_iff.1 left
      obtain ⟨child', below', joined'⟩ := Option.bind_eq_some_iff.1 right
      have same : child = child' := by
        cases side : bit key i <;> rw [side] at joined joined' <;> simpa using H.injective joined joined'
      subst same
      exact ih below below'

omit [One W] [Zero W] in
/-- The last subtree beside a path is not empty: the leaf next to it needs no node otherwise. -/
theorem SparseTree.last_side {key : W} {i : Nat} {t side : SparseTree W} (compact : t.Compact)
    (last : (t.sides key i).getLast? = some side) : side ≠ .empty := by
  induction t generalizing i with
  | empty | leaf => cases last
  | node left right ihLeft ihRight =>
      have ends {taken other : SparseTree W} (two : 2 ≤ taken.leaves.length + other.leaves.length)
          (deeper : (taken.sides key (i + 1)).getLast? = some side → side ≠ .empty)
          (last : (other :: taken.sides key (i + 1)).getLast? = some side) : side ≠ .empty := by
        cases taken with
        | empty | leaf =>
            rintro rfl
            cases last
            simp [leaves] at two
        | node l r =>
            rw [sides_node, List.getLast?_cons_cons, ← sides_node] at last
            exact deeper last
      rw [sides_node] at last
      cases taken : bit key i <;> rw [taken] at last
      · exact ends compact.1 (ihLeft compact.2.1) last
      · exact ends (Nat.add_comm _ _ ▸ compact.1) (ihRight compact.2.2) last

theorem SparseTree.last_hash_ne_zero {key : W} {i : Nat} {t : SparseTree W} {hashes : List W}
    (compact : t.Compact)
    (beside : List.Forall₂ (fun side h => SparseTree.commit H side = some h) (t.sides key i) hashes) :
    hashes.getLast? ≠ some 0 := by
  intro last
  have flipped := List.forall₂_reverse_iff.2 beside
  rw [List.getLast?_eq_head?_reverse] at last
  cases hashesUp : hashes.reverse with
  | nil => simp [hashesUp] at last
  | cons h rest =>
      rw [hashesUp, List.head?_cons, Option.some.injEq] at last
      rw [hashesUp, last] at flipped
      cases sidesUp : (t.sides key i).reverse with
      | nil =>
          rw [sidesUp] at flipped
          cases flipped
      | cons side others =>
          rw [sidesUp] at flipped
          have first : (t.sides key i).getLast? = some side := by
            rw [List.getLast?_eq_head?_reverse, sidesUp, List.head?_cons]
          exact last_side compact first (commit_eq_zero (List.forall₂_cons.1 flipped).1)

omit [One W] [KeyBits W] in
theorem slotLevel_of_last [DecidableEq W] {siblings : List W} (last : siblings.getLast? ≠ some 0) (n : Nat) :
    slotLevel (siblings ++ List.replicate n 0) = siblings.length := by
  induction siblings with
  | nil =>
      induction n with
      | zero => rfl
      | succ n ih =>
          rw [List.nil_append] at ih
          simp [List.replicate_succ, slotLevel, ih]
  | cons sibling rest ih =>
      cases rest with
      | nil =>
          have zeros : slotLevel (List.replicate n (0 : W)) = 0 := by
            simpa using ih (by simp)
          have nonzero : sibling ≠ 0 := fun zero => last (by simp [zero])
          simp [slotLevel, zeros, nonzero]
      | cons next rest =>
          have below := ih (by simpa using last)
          rw [List.cons_append, slotLevel, below]
          simp

end completeness

namespace Opening

variable [KeyBits W] [DecidableEq W] {H : IdealHash W} {opening : Opening W}

omit [One W] [KeyBits W] in
theorem length_path (opening : Opening W) :
    (opening.siblings.take opening.level).length = opening.level := by
  simp [level, slotLevel_le]

theorem rootOf_descend {t : SparseTree W} {key slot root : W} (committed : t.commit H = some root)
    (folded : opening.rootOf H key slot = some root) :
    ∃ sub, t.descend key 0 opening.level = some sub ∧ sub.commit H = some slot := by
  have reached := foldUp_descend committed folded
  rwa [length_path] at reached

theorem rootOf_graft {t sub : SparseTree W} {key slot new root newRoot : W}
    (committed : t.commit H = some root)
    (folded : opening.rootOf H key slot = some root) (replaced : sub.commit H = some new)
    (refolded : opening.rootOf H key new = some newRoot) :
    (t.graft key 0 opening.level sub).commit H = some newRoot := by
  have grafted := foldUp_graft committed folded replaced refolded
  rwa [length_path] at grafted

theorem Verifies.lookup {t : SparseTree W} {root key : W} {value : Option W}
    (committed : t.commit H = some root)
    (shown : opening.Verifies H root key value) : t.lookup key 0 = value := by
  obtain ⟨slot, isSlot, folded⟩ := Option.bind_eq_some_iff.1 shown.fold
  obtain ⟨sub, reached, holds⟩ := rootOf_descend committed folded
  unfold SparseTree.lookup
  rw [SparseTree.slot_descend reached]
  cases value with
  | some value =>
      rw [SparseTree.commit_leaf_injective isSlot holds]
      simp
  | none =>
      simp only [shownSlot, oldSlot] at isSlot
      split_ifs at isSlot with foreign empty
      · cases isSlot
        rw [SparseTree.commit_eq_zero holds]
        rfl
      · rw [SparseTree.commit_leaf_injective isSlot holds]
        have distinct : opening.oldKey ≠ key := fun same => foreign ⟨by simpa using empty, same⟩
        simp [distinct]

/-- An accepted insertion is `add` on the tree that the old root commits to. -/
theorem Inserts.add {t : SparseTree W} {oldRoot key value newRoot : W} (committed : t.commit H = some oldRoot)
    (inserted : opening.Inserts H oldRoot key value newRoot) :
    ∃ t', t.add key value opening.siblings.length 0 = some t' ∧ t'.commit H = some newRoot := by
  obtain ⟨slot, isSlot, folded⟩ := Option.bind_eq_some_iff.1 inserted.before
  obtain ⟨new, isNew, refolded⟩ := Option.bind_eq_some_iff.1 inserted.after
  obtain ⟨sub, reached, holds⟩ := rootOf_descend committed folded
  obtain ⟨leaf, isLeaf, placed⟩ := Option.bind_eq_some_iff.1 isNew
  have levels : opening.siblings.length - opening.level + opening.level = opening.siblings.length :=
    Nat.sub_add_cancel (slotLevel_le _)
  suffices ∃ sub', sub.add key value (opening.siblings.length - opening.level)
    (0 + opening.level) = some sub' ∧
      sub'.commit H = some new by
    obtain ⟨sub', done, commits⟩ := this
    refine ⟨_, ?_, rootOf_graft committed folded commits refolded⟩
    have added := SparseTree.add_descend reached done
    rwa [levels] at added
  simp only [oldSlot] at isSlot
  cases empty : opening.isOld0
  · -- Another key's leaf is pushed down next to the new one.
    simp only [empty, if_false, Bool.false_eq_true] at isSlot placed
    obtain ⟨old, isOld, pushed⟩ := Option.bind_eq_some_iff.1 placed
    have distinct : opening.oldKey ≠ key := by
      intro same
      rw [same, pushDown_self] at pushed
      cases pushed
    rw [SparseTree.commit_leaf_injective isSlot holds, SparseTree.add_leaf, if_neg distinct, Nat.zero_add]
    exact pushDown_split isLeaf isOld pushed
  · simp only [empty, if_true] at isSlot placed
    cases isSlot
    cases placed
    rw [SparseTree.commit_eq_zero holds]
    exact ⟨.leaf key value, by cases opening.siblings.length - opening.level <;> rfl, isLeaf⟩

theorem Inserts.verifies {oldRoot key value newRoot : W}
    (inserted : opening.Inserts H oldRoot key value newRoot) : opening.Verifies H oldRoot key none := by
  have foreign : ¬(opening.isOld0 = false ∧ opening.oldKey = key) := by
    rintro ⟨occupied, same⟩
    obtain ⟨new, isNew, _⟩ := Option.bind_eq_some_iff.1 inserted.after
    simp [insertedSlot, occupied, same, pushDown_self] at isNew
  refine ⟨inserted.last, ?_⟩
  rw [shownSlot, if_neg foreign]
  exact inserted.before

theorem verifies_empty {key : W} (last : opening.siblings.getLast? = some 0) (top : opening.level = 0)
    (empty : opening.isOld0 = true) : opening.Verifies H 0 key none := by
  refine ⟨last, ?_⟩
  simp [shownSlot, oldSlot, rootOf, empty, top, foldUp]

theorem inserts_empty {key value root : W} (last : opening.siblings.getLast? = some 0)
    (top : opening.level = 0)
    (empty : opening.isOld0 = true) (hashed : leafHash H key value = some root) :
    opening.Inserts H 0 key value root := by
  refine ⟨last, ?_, ?_⟩
  · simp [oldSlot, rootOf, empty, top, foldUp]
  · simp [insertedSlot, rootOf, empty, top, foldUp, hashed]

theorem Updates.verifies {oldRoot key value newRoot : W}
    (updated : opening.Updates H oldRoot key value newRoot) :
    opening.Verifies H oldRoot key (some opening.oldValue) := by
  refine ⟨updated.last, ?_⟩
  rw [shownSlot, ← updated.same]
  have before := updated.before
  rwa [← updated.same] at before

theorem Updates.short {t : SparseTree W} {oldRoot key value newRoot : W}
    (committed : t.commit H = some oldRoot) (updated : opening.Updates H oldRoot key value newRoot) :
    (t.sides key 0).length < opening.siblings.length := by
  obtain ⟨slot, isSlot, folded⟩ := Option.bind_eq_some_iff.1 updated.before
  obtain ⟨sub, reached, holds⟩ := rootOf_descend committed folded
  rw [SparseTree.sides_descend reached, SparseTree.commit_leaf_injective isSlot holds]
  exact slotLevel_lt updated.last

theorem Updates.set {t : SparseTree W} {oldRoot key value newRoot : W} (committed : t.commit H = some oldRoot)
    (updated : opening.Updates H oldRoot key value newRoot) :
    ∃ t', t.set key value 0 = some (opening.oldValue, t') ∧ t'.commit H = some newRoot := by
  obtain ⟨slot, isSlot, folded⟩ := Option.bind_eq_some_iff.1 updated.before
  obtain ⟨new, isNew, refolded⟩ := Option.bind_eq_some_iff.1 updated.after
  obtain ⟨sub, reached, holds⟩ := rootOf_descend committed folded
  rw [updated.same] at isSlot
  have found : sub.set key value (0 + opening.level) = some (opening.oldValue, .leaf key value) := by
    rw [SparseTree.commit_leaf_injective isSlot holds]
    simp [SparseTree.set]
  exact ⟨_, SparseTree.set_descend reached found,
    rootOf_graft committed folded (show (SparseTree.leaf key value).commit H = some new from isNew) refolded⟩

end Opening

end SparseMerkle
