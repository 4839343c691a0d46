import Mootvote.Shared.SparseTree

set_option autoImplicit false

/-!
# Where paths end

The length of a path and the leaf at its end, told from the stored keys alone.
-/

namespace SparseMerkle.SparseTree

variable {W : Type} [KeyBits W]

def Agree (key other : W) (i n : Nat) : Prop := ∀ j < n, bit key (i + j) = bit other (i + j)

theorem Agree.tail {key other : W} {i n : Nat} (agree : Agree key other i (n + 1)) :
    Agree key other (i + 1) n := by
  intro j inside
  rw [Nat.add_right_comm]
  exact agree (j + 1) (by omega)

theorem Agree.cons {key other : W} {i n : Nat} (first : bit key i = bit other i)
    (agree : Agree key other (i + 1) n) :
    Agree key other i (n + 1) := by
  intro j inside
  cases j with
  | zero => exact first
  | succ j =>
      rw [← Nat.add_assoc, Nat.add_right_comm]
      exact agree j (by omega)

theorem slot_of_agree {key other : W} {i : Nat} {t : SparseTree W}
    (agree : Agree key other i (t.sides key i).length) : t.slot other i = t.slot key i := by
  induction t generalizing i with
  | empty | leaf => rfl
  | node left right ihLeft ihRight =>
      rw [sides_node, List.length_cons] at agree
      have first := agree 0 (Nat.zero_lt_succ _)
      rw [Nat.add_zero] at first
      rw [slot_node, slot_node, ← first]
      cases side : bit key i <;> rw [side] at agree
      · exact ihLeft agree.tail
      · exact ihRight agree.tail

theorem agree_of_slot {key found value : W} {i : Nat} {t : SparseTree W} (ordered : t.Ordered i)
    (ends : t.slot key i = .leaf found value) : Agree key found i (t.sides key i).length := by
  induction t generalizing i with
  | empty | leaf => exact fun j inside => absurd inside (Nat.not_lt_zero j)
  | node left right ihLeft ihRight =>
      obtain ⟨leftBits, rightBits, leftOrdered, rightOrdered⟩ := ordered
      rw [slot_node] at ends
      rw [sides_node, List.length_cons]
      cases side : bit key i <;> rw [side] at ends
      · exact Agree.cons (by rw [side, leftBits _ (slot_mem ends)]) (ihLeft leftOrdered ends)
      · exact Agree.cons (by rw [side, rightBits _ (slot_mem ends)]) (ihRight rightOrdered ends)

theorem two_of_lt_sides {key : W} {i n : Nat} {t : SparseTree W} (ordered : t.Ordered i) (compact : t.Compact)
    (inside : n < (t.sides key i).length) :
    ∃ a b, a ≠ b ∧ a ∈ t.leaves.map Prod.fst ∧ b ∈ t.leaves.map Prod.fst ∧ Agree key a i n ∧
    Agree key b i n := by
  induction n generalizing i t with
  | zero =>
      cases t with
      | empty | leaf => simp [sides] at inside
      | node left right =>
          have distinct := nodup_keys ordered
          have two : 2 ≤ ((node left right).leaves.map Prod.fst).length := by
            simpa [leaves] using compact.1
          rcases keys : (node left right).leaves.map Prod.fst with _ | ⟨a, _ | ⟨b, rest⟩⟩
          · simp [keys] at two
          · simp [keys] at two
          · rw [keys] at distinct
            refine ⟨a, b, ?_, by simp, by simp, fun j none => by omega, fun j none => by omega⟩
            rintro rfl
            simp at distinct
  | succ n ih =>
      cases t with
      | empty | leaf => simp [sides] at inside
      | node left right =>
          obtain ⟨leftBits, rightBits, leftOrdered, rightOrdered⟩ := ordered
          rw [sides_node, List.length_cons, Nat.add_lt_add_iff_right] at inside
          -- On the side that the path takes, every key shares the bit at this level.
          have lift {side : SparseTree W} (mem : ∀ entry ∈ side.leaves, entry ∈ (node left right).leaves)
              (bits : ∀ entry ∈ side.leaves, bit entry.1 i = bit key i)
              (deeper : ∃ a b, a ≠ b ∧ a ∈ side.leaves.map Prod.fst ∧ b ∈ side.leaves.map Prod.fst ∧
                Agree key a (i + 1) n ∧ Agree key b (i + 1) n) :
              ∃ a b, a ≠ b ∧ a ∈ (node left right).leaves.map Prod.fst ∧
                b ∈ (node left right).leaves.map Prod.fst ∧
                Agree key a i (n + 1) ∧ Agree key b i (n + 1) := by
            obtain ⟨a, b, distinct, inA, inB, agreeA, agreeB⟩ := deeper
            obtain ⟨entryA, memberA, rfl⟩ := List.mem_map.1 inA
            obtain ⟨entryB, memberB, rfl⟩ := List.mem_map.1 inB
            exact ⟨_, _, distinct, List.mem_map_of_mem (mem _ memberA), List.mem_map_of_mem (mem _ memberB),
              agreeA.cons (bits _ memberA).symm, agreeB.cons (bits _ memberB).symm⟩
          cases side : bit key i <;> rw [side] at inside
          · exact lift (by simp [leaves]; tauto) (fun entry member => by rw [leftBits entry member, side])
              (ih leftOrdered compact.2.1 inside)
          · exact lift (by simp [leaves]; tauto) (fun entry member => by rw [rightBits entry member, side])
              (ih rightOrdered compact.2.2 inside)

theorem slot_of_key {key : W} {i : Nat} {t : SparseTree W} (ordered : t.Ordered i)
    (member : key ∈ t.leaves.map Prod.fst) : ∃ value, t.slot key i = .leaf key value := by
  obtain ⟨⟨found, value⟩, inside, rfl⟩ := List.mem_map.1 member
  exact ⟨value, slot_of_mem ordered inside⟩

/-- A path is shorter than the levels exactly if no two stored keys share all its bits but the last. -/
theorem sides_lt_iff {key : W} {levels : Nat} {t : SparseTree W} (shaped : t.Shaped levels)
    (positive : 0 < levels) :
    (t.sides key 0).length < levels ↔
      ∀ a ∈ t.leaves.map Prod.fst, ∀ b ∈ t.leaves.map Prod.fst,
        Agree key a 0 (levels - 1) → Agree key b 0 (levels - 1) → a = b := by
  constructor
  · intro short a inA b inB agreeA agreeB
    obtain ⟨valueA, slotA⟩ := slot_of_key shaped.ordered inA
    obtain ⟨valueB, slotB⟩ := slot_of_key shaped.ordered inB
    rw [slot_of_agree fun j inside => agreeA j (by omega)] at slotA
    rw [slot_of_agree fun j inside => agreeB j (by omega), slotA] at slotB
    injection slotB
  · intro unique
    by_contra long
    obtain ⟨a, b, distinct, inA, inB, agreeA, agreeB⟩ :=
      two_of_lt_sides shaped.ordered shaped.compact (show levels - 1 < (t.sides key 0).length by omega)
    exact distinct (unique a inA b inB agreeA agreeB)

/-- A path ends at a stored key's leaf exactly if that key alone shares some beginning of the path. -/
theorem slot_leaf_iff {key found : W} {levels : Nat} {t : SparseTree W} (shaped : t.Shaped levels) :
    (∃ value, t.slot key 0 = .leaf found value) ↔
      found ∈ t.leaves.map Prod.fst ∧ ∃ n, ∀ a ∈ t.leaves.map Prod.fst, Agree key a 0 n ↔ a = found := by
  constructor
  · rintro ⟨value, ends⟩
    have member : found ∈ t.leaves.map Prod.fst := List.mem_map_of_mem (slot_mem ends)
    refine ⟨member, (t.sides key 0).length, fun a inside => ⟨fun agree => ?_, ?_⟩⟩
    · obtain ⟨valueA, slotA⟩ := slot_of_key shaped.ordered inside
      rw [slot_of_agree agree, ends] at slotA
      injection slotA with same
      exact same.symm
    · rintro rfl
      -- Were a bit different, the slot's leaf would not lie on its own key's path.
      exact agree_of_slot shaped.ordered ends
  · rintro ⟨member, n, alone⟩
    obtain ⟨value, own⟩ := slot_of_key shaped.ordered member
    refine ⟨value, ?_⟩
    rw [← own]
    refine (slot_of_agree fun j inside => ?_).symm
    have agree := (alone found member).2 rfl
    by_cases early : j < n
    · exact agree j early
    · obtain ⟨a, b, distinct, inA, inB, agreeA, agreeB⟩ :=
        two_of_lt_sides shaped.ordered shaped.compact (show n < (t.sides key 0).length by omega)
      exact absurd (((alone a inA).1 agreeA).trans ((alone b inB).1 agreeB).symm) distinct

end SparseMerkle.SparseTree
