import Mootvote.Shared.SparseProof

set_option autoImplicit false

/-!
# The openings that a tree gives

Every key whose path ends above the last level has an opening that verifies, and the openings of
`add` and `set` take the root of the tree to the root of the changed tree.
-/

namespace SparseMerkle

open Shared

variable {W : Type} [Zero W] [One W]

/-- The opening of a slot with the hashes beside its path, padded to the levels. -/
def SparseTree.openingOf (hashes : List W) (levels : Nat) : SparseTree W → Opening W
  | .leaf oldKey oldValue =>
      { siblings := hashes ++ List.replicate (levels - hashes.length) 0, isOld0 := false, oldKey, oldValue }
  | _ =>
      { siblings := hashes ++ List.replicate (levels - hashes.length) 0, isOld0 := true, oldKey := 0,
        oldValue := 0 }

variable [KeyBits W] {H : IdealHash W} {key : W} {t : SparseTree W} {hashes : List W} {root newRoot : W}

omit [KeyBits W] in
theorem SparseTree.leafHash_of_mem {entry : W × W} (committed : t.commit H = some root)
    (member : entry ∈ t.leaves) :
    ∃ h, leafHash H entry.1 entry.2 = some h := by
  induction t generalizing root with
  | empty => cases member
  | leaf found value =>
      cases List.mem_singleton.1 member
      exact ⟨root, committed⟩
  | node left right ihLeft ihRight =>
      obtain ⟨l, r, leftRoot, rightRoot, _⟩ := commit_node_iff.1 committed
      rcases List.mem_append.1 member with inside | inside
      · exact ihLeft leftRoot inside
      · exact ihRight rightRoot inside

theorem exists_beside (key : W) (i : Nat) (committed : t.commit H = some root) :
    ∃ hashes, List.Forall₂ (fun side h => SparseTree.commit H side = some h) (t.sides key i) hashes := by
  induction t generalizing i root with
  | empty | leaf => exact ⟨[], .nil⟩
  | node left right ihLeft ihRight =>
      obtain ⟨l, r, leftRoot, rightRoot, _⟩ := SparseTree.commit_node_iff.1 committed
      rw [SparseTree.sides_node]
      cases bit key i
      · obtain ⟨hashes, deeper⟩ := ihLeft (i + 1) leftRoot
        exact ⟨r :: hashes, .cons rightRoot deeper⟩
      · obtain ⟨hashes, deeper⟩ := ihRight (i + 1) rightRoot
        exact ⟨l :: hashes, .cons leftRoot deeper⟩

theorem foldUp_of_graft {i : Nat} {sub : SparseTree W}
    (beside : List.Forall₂ (fun side h => SparseTree.commit H side = some h) (t.sides key i) hashes)
    (committed : (t.graft key i hashes.length sub).commit H = some newRoot) :
    ∃ new, sub.commit H = some new ∧ foldUp H key i hashes new = some newRoot := by
  induction t generalizing i hashes newRoot with
  | empty | leaf =>
      cases beside
      exact ⟨newRoot, committed, rfl⟩
  | node left right ihLeft ihRight =>
      rw [SparseTree.sides_node] at beside
      cases beside with
      | @cons _ h _ rest first deeper =>
          rw [List.length_cons, SparseTree.graft] at committed
          cases side : bit key i <;> rw [side] at first deeper committed
          · obtain ⟨l, r, leftRoot, rightRoot, hashed⟩ := SparseTree.commit_node_iff.1 committed
            obtain ⟨new, isNew, folded⟩ := ihLeft deeper leftRoot
            rw [Option.some.inj (rightRoot.symm.trans first)] at hashed
            exact ⟨new, isNew, by simpa [foldUp, folded, joinHash, side] using hashed⟩
          · obtain ⟨l, r, leftRoot, rightRoot, hashed⟩ := SparseTree.commit_node_iff.1 committed
            obtain ⟨new, isNew, folded⟩ := ihRight deeper rightRoot
            rw [Option.some.inj (leftRoot.symm.trans first)] at hashed
            exact ⟨new, isNew, by simpa [foldUp, folded, joinHash, side] using hashed⟩

theorem pushDown_of_split {value oldKey oldValue new old slot : W} {levels i : Nat} {sub : SparseTree W}
    (newLeaf : leafHash H key value = some new) (oldLeaf : leafHash H oldKey oldValue = some old)
    (isSplit : SparseTree.split key value oldKey oldValue levels i = some sub)
    (committed : sub.commit H = some slot) :
    pushDown H key oldKey new old levels i = some slot := by
  induction levels generalizing i sub slot with
  | zero => cases isSplit
  | succ levels ih =>
      obtain ⟨rest, same, ⟨shared, below, deeper, rfl⟩ | ⟨isNew, isOld, rfl⟩ | ⟨isNew, isOld, rfl⟩⟩ :=
        SparseTree.split_cases isSplit
      · cases same
        rw [pushDown, if_pos shared]
        cases side : bit key i <;> rw [side] at committed
        · obtain ⟨l, r, leftRoot, rightRoot, hashed⟩ := SparseTree.commit_node_iff.1 committed
          cases rightRoot
          simpa [ih deeper leftRoot, joinHash] using hashed
        · obtain ⟨l, r, leftRoot, rightRoot, hashed⟩ := SparseTree.commit_node_iff.1 committed
          cases leftRoot
          simpa [ih deeper rightRoot, joinHash] using hashed
      · obtain ⟨l, r, leftRoot, rightRoot, hashed⟩ := SparseTree.commit_node_iff.1 committed
        cases leftRoot.symm.trans oldLeaf
        cases rightRoot.symm.trans newLeaf
        simpa [pushDown, isNew, isOld, joinHash] using hashed
      · obtain ⟨l, r, leftRoot, rightRoot, hashed⟩ := SparseTree.commit_node_iff.1 committed
        cases leftRoot.symm.trans newLeaf
        cases rightRoot.symm.trans oldLeaf
        simpa [pushDown, isNew, isOld, joinHash] using hashed

namespace SparseTree

omit [Zero W] [One W] in
theorem add_slot [DecidableEq W] (key value : W) (rest i : Nat) (t : SparseTree W) :
    t.add key value (rest + (t.sides key i).length) i =
      ((t.slot key i).add key value rest (i + (t.sides key i).length)).map
        (t.graft key i (t.sides key i).length) := by
  induction t generalizing i with
  | empty => cases rest <;> rfl
  | leaf => exact Option.map_id'.symm
  | node left right ihLeft ihRight =>
      have deeper (n : Nat) : i + (n + 1) = i + 1 + n := by omega
      rw [sides_node, List.length_cons, slot_node, ← Nat.add_assoc, deeper (List.length _)]
      cases side : bit key i
      · simp only [add, graft, side, Bool.false_eq_true, if_false, ihLeft (i + 1), Option.map_map,
          Function.comp_def]
      · simp only [add, graft, side, if_true, ihRight (i + 1), Option.map_map, Function.comp_def]

omit [Zero W] [One W] in
theorem set_slot [DecidableEq W] (key value : W) (i : Nat) (t : SparseTree W) :
    t.set key value i = ((t.slot key i).set key value (i + (t.sides key i).length)).map
      fun found => (found.1, t.graft key i (t.sides key i).length found.2) := by
  induction t generalizing i with
  | empty => rfl
  | leaf => exact Option.map_id'.symm
  | node left right ihLeft ihRight =>
      have deeper (n : Nat) : i + (n + 1) = i + 1 + n := by omega
      rw [sides_node, List.length_cons, slot_node, deeper (List.length _)]
      cases side : bit key i
      · simp only [set, graft, side, Bool.false_eq_true, if_false, ihLeft (i + 1), Option.map_map,
          Function.comp_def]
      · simp only [set, graft, side, if_true, ihRight (i + 1), Option.map_map, Function.comp_def]

end SparseTree

section openings

variable [DecidableEq W] {levels : Nat} (compact : t.Compact) (committed : t.commit H = some root)
  (beside : List.Forall₂ (fun side h => SparseTree.commit H side = some h) (t.sides key 0) hashes)
  (short : hashes.length < levels)

omit [One W] [KeyBits W] [DecidableEq W] in
theorem openingOf_siblings [One W] (sub : SparseTree W) :
    (sub.openingOf hashes levels).siblings = hashes ++ List.replicate (levels - hashes.length) 0 := by
  cases sub <;> rfl

include short in
omit [KeyBits W] [DecidableEq W] in
theorem openingOf_last (sub : SparseTree W) : (sub.openingOf hashes levels).siblings.getLast? = some 0 := by
  obtain ⟨n, rest⟩ : ∃ n, levels - hashes.length = n + 1 := ⟨levels - hashes.length - 1, by omega⟩
  rw [openingOf_siblings, rest, List.replicate_succ', ← List.append_assoc, List.getLast?_concat]

include compact beside in
theorem openingOf_level (sub : SparseTree W) : (sub.openingOf hashes levels).level = hashes.length := by
  rw [Opening.level, openingOf_siblings]
  exact slotLevel_of_last (SparseTree.last_hash_ne_zero compact beside) _

include compact beside in
theorem openingOf_rootOf (sub : SparseTree W) (slot : W) :
    (sub.openingOf hashes levels).rootOf H key slot = foldUp H key 0 hashes slot := by
  rw [Opening.rootOf, openingOf_level compact beside, openingOf_siblings, List.take_left]

omit [DecidableEq W] in
theorem openingOf_oldSlot {slot : W} (isSlot : (t.slot key 0).commit H = some slot) :
    ((t.slot key 0).openingOf hashes levels).oldSlot H = some slot := by
  rcases SparseTree.slot_cases key 0 t with ends | ⟨found, old, ends, _⟩
  · rw [ends] at isSlot ⊢
    exact isSlot
  · rw [ends] at isSlot ⊢
    exact isSlot

omit [One W] in
theorem openingOf_occupied {value : W} (stored : t.lookup key 0 = some value) :
    ((t.slot key 0).openingOf hashes levels).isOld0 = false := by
  unfold SparseTree.lookup at stored
  cases ends : t.slot key 0 with
  | leaf => rfl
  | empty | node => simp [ends] at stored

include compact committed beside short

theorem opening_includes {value : W} (stored : t.lookup key 0 = some value) :
    ((t.slot key 0).openingOf hashes levels).Verifies H root key (some value) := by
  obtain ⟨slot, isSlot, folded⟩ := foldUp_sides committed beside
  refine ⟨openingOf_last short _, ?_⟩
  unfold SparseTree.lookup at stored
  cases ends : t.slot key 0 with
  | empty | node => simp [ends] at stored
  | leaf found old =>
      rw [ends] at stored isSlot
      simp only [Option.ite_none_right_eq_some, Option.some.injEq] at stored
      obtain ⟨rfl, rfl⟩ := stored
      rw [Opening.shownSlot, show leafHash H found old = some slot from isSlot, Option.bind_some,
        openingOf_rootOf compact beside]
      exact folded

theorem opening_excludes (absent : t.lookup key 0 = none) :
    ((t.slot key 0).openingOf hashes levels).Verifies H root key none := by
  obtain ⟨slot, isSlot, folded⟩ := foldUp_sides committed beside
  refine ⟨openingOf_last short _, ?_⟩
  have shown : ((t.slot key 0).openingOf hashes levels).shownSlot H key none = some slot := by
    rw [Opening.shownSlot, if_neg, openingOf_oldSlot isSlot]
    rintro ⟨isLeaf, same⟩
    unfold SparseTree.lookup at absent
    rcases SparseTree.slot_cases key 0 t with ends | ⟨found, old, ends, _⟩
    · rw [ends] at isLeaf
      cases isLeaf
    · rw [ends] at absent same
      simp [show found = key from same] at absent
  rw [shown, Option.bind_some, openingOf_rootOf compact beside]
  exact folded

theorem opening_inserts {value : W} {t' : SparseTree W} (done : t.add key value levels 0 = some t')
    (changed : t'.commit H = some newRoot) :
    ((t.slot key 0).openingOf hashes levels).Inserts H root key value newRoot := by
  obtain ⟨slot, isSlot, folded⟩ := foldUp_sides committed beside
  obtain ⟨rest, sum⟩ : ∃ rest, levels = rest + (t.sides key 0).length := ⟨levels - hashes.length, by
    rw [beside.length_eq]
    omega⟩
  rw [sum, SparseTree.add_slot] at done
  obtain ⟨sub, inSlot, rfl⟩ := Option.map_eq_some_iff.1 done
  rw [beside.length_eq] at changed inSlot sum
  obtain ⟨new, isNew, refolded⟩ := foldUp_of_graft beside changed
  refine ⟨openingOf_last short _, ?_, ?_⟩
  · rw [openingOf_oldSlot isSlot, Option.bind_some, openingOf_rootOf compact beside]
    exact folded
  · have placed : ((t.slot key 0).openingOf hashes levels).insertedSlot H key value = some new := by
      rcases SparseTree.slot_cases key 0 t with ends | ⟨found, old, ends, _⟩
      · rw [ends] at inSlot ⊢
        have leaf : sub = .leaf key value := by cases rest <;> exact (Option.some.inj inSlot).symm
        rw [leaf] at isNew
        rw [Opening.insertedSlot, show leafHash H key value = some new from isNew]
        rfl
      · rw [ends] at inSlot isSlot ⊢
        -- Another key's leaf is in the slot: both leaves go below it, to where their paths part.
        have level : (SparseTree.openingOf hashes levels (.leaf found old)).level = hashes.length :=
          openingOf_level compact beside _
        have width : (SparseTree.openingOf hashes levels (.leaf found old)).siblings.length = levels := by
          rw [openingOf_siblings, List.length_append, List.length_replicate]
          omega
        rw [SparseTree.add_leaf] at inSlot
        split_ifs at inSlot with same
        obtain ⟨newLeaf, isLeaf⟩ := SparseTree.leafHash_of_mem isNew
          ((SparseTree.split_leaves inSlot).mem_iff.2 List.mem_cons_self)
        have pushed := pushDown_of_split isLeaf isSlot inSlot isNew
        rw [Nat.zero_add] at pushed
        rw [Opening.insertedSlot, isLeaf, Option.bind_eq_bind, Option.bind_some, level, width,
          show levels - hashes.length = rest by omega]
        simpa [SparseTree.openingOf, show leafHash H found old = some slot from isSlot] using pushed
    rw [placed, Option.bind_some, openingOf_rootOf compact beside]
    exact refolded

theorem opening_updates {value old : W} {t' : SparseTree W} (done : t.set key value 0 = some (old, t'))
    (changed : t'.commit H = some newRoot) :
    ((t.slot key 0).openingOf hashes levels).Updates H root key value newRoot := by
  obtain ⟨slot, isSlot, folded⟩ := foldUp_sides committed beside
  rw [SparseTree.set_slot] at done
  obtain ⟨⟨old', sub⟩, inSlot, same⟩ := Option.map_eq_some_iff.1 done
  cases same
  rw [beside.length_eq] at changed
  obtain ⟨new, isNew, refolded⟩ := foldUp_of_graft beside changed
  rcases SparseTree.slot_cases key 0 t with ends | ⟨found, stored, ends, _⟩
  · rw [ends] at inSlot
    cases inSlot
  · rw [ends] at inSlot isSlot ⊢
    simp only [SparseTree.set, Option.ite_none_right_eq_some, Option.some.injEq, Prod.mk.injEq] at inSlot
    obtain ⟨rfl, rfl, rfl⟩ := inSlot
    refine ⟨openingOf_last short _, rfl, ?_, ?_⟩
    · have before : ((SparseTree.openingOf hashes levels (.leaf found stored)).oldSlot H).bind
          ((SparseTree.openingOf hashes levels (.leaf found stored)).rootOf H found) = some root := by
        have old : (SparseTree.openingOf hashes levels (.leaf found stored)).oldSlot H = some slot := isSlot
        rw [old, Option.bind_some, openingOf_rootOf compact beside]
        exact folded
      exact before
    · rw [show leafHash H found value = some new from isNew, Option.bind_some,
        openingOf_rootOf compact beside]
      exact refolded

end openings

end SparseMerkle
