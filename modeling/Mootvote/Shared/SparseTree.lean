import Mathlib.Algebra.Group.Nat.Defs
import Mathlib.Data.List.Nodup
import Mathlib.Data.List.Perm.Basic

set_option autoImplicit false

/-!
# Sparse trees over keyed leaves

A leaf sits at the first level at which the bits of its key, least significant first, set it
apart from the other leaves. `add` and `set` are the two ways a tree changes.
-/

namespace SparseMerkle

class KeyBits (W : Type) where
  bit : W → Nat → Bool

export KeyBits (bit)

inductive SparseTree (W : Type) where
  | empty
  | leaf (key value : W)
  | node (left right : SparseTree W)
deriving DecidableEq

namespace SparseTree

variable {W : Type}

def leaves : SparseTree W → List (W × W)
  | .empty => []
  | .leaf key value => [(key, value)]
  | .node left right => left.leaves ++ right.leaves

def height : SparseTree W → Nat
  | .empty | .leaf _ _ => 0
  | .node left right => max left.height right.height + 1

/-- Every node has two leaves below it, so a leaf or an empty slot never has an empty sibling. -/
def Compact : SparseTree W → Prop
  | .empty | .leaf _ _ => True
  | .node left right => 2 ≤ left.leaves.length + right.leaves.length ∧ left.Compact ∧ right.Compact

theorem length_leaves_le (t : SparseTree W) : t.leaves.length ≤ 2 ^ t.height := by
  induction t with
  | empty => simp [leaves, height]
  | leaf => simp [leaves, height]
  | node left right ihLeft ihRight =>
      have leftBound := Nat.pow_le_pow_right (n := 2) (by omega) (Nat.le_max_left left.height right.height)
      have rightBound := Nat.pow_le_pow_right (n := 2) (by omega) (Nat.le_max_right left.height right.height)
      simp only [leaves, height, List.length_append, Nat.pow_succ]
      omega

variable [KeyBits W]

/-- Below level `i` every leaf lies on the path its key's bits describe. -/
def Ordered : Nat → SparseTree W → Prop
  | _, .empty | _, .leaf _ _ => True
  | i, .node left right =>
      (∀ entry ∈ left.leaves, bit entry.1 i = false) ∧ (∀ entry ∈ right.leaves, bit entry.1 i = true) ∧
        left.Ordered (i + 1) ∧ right.Ordered (i + 1)

def slot (key : W) : Nat → SparseTree W → SparseTree W
  | i, .node left right => if bit key i then right.slot key (i + 1) else left.slot key (i + 1)
  | _, t => t

/-- The subtrees next to the path of `key`, from the root down. -/
def sides (key : W) : Nat → SparseTree W → List (SparseTree W)
  | i, .node left right =>
      if bit key i then left :: right.sides key (i + 1) else right :: left.sides key (i + 1)
  | _, _ => []

/-- Two leaves below a shared path: empty siblings up to the first bit in which the keys differ. -/
def split (key value oldKey oldValue : W) : Nat → Nat → Option (SparseTree W)
  | 0, _ => none
  | levels + 1, i =>
      if bit key i = bit oldKey i then
        (split key value oldKey oldValue levels (i + 1)).map fun below =>
          if bit key i then .node .empty below else .node below .empty
      else if bit key i then some (.node (.leaf oldKey oldValue) (.leaf key value))
      else some (.node (.leaf key value) (.leaf oldKey oldValue))

section operations

variable [DecidableEq W]

def lookup (key : W) (i : Nat) (t : SparseTree W) : Option W :=
  match t.slot key i with
  | .leaf found value => if found = key then some value else none
  | _ => none

def add (key value : W) : Nat → Nat → SparseTree W → Option (SparseTree W)
  | _, _, .empty => some (.leaf key value)
  | levels, i, .leaf oldKey oldValue =>
      if oldKey = key then none else split key value oldKey oldValue levels i
  | 0, _, .node _ _ => none
  | levels + 1, i, .node left right =>
      if bit key i then (right.add key value levels (i + 1)).map (.node left)
      else (left.add key value levels (i + 1)).map (.node · right)

def set (key value : W) : Nat → SparseTree W → Option (W × SparseTree W)
  | _, .empty => none
  | _, .leaf found old => if found = key then some (old, .leaf key value) else none
  | i, .node left right =>
      if bit key i then (right.set key value (i + 1)).map fun found => (found.1, .node left found.2)
      else (left.set key value (i + 1)).map fun found => (found.1, .node found.2 right)

-- An empty tree takes any key, has none to overwrite, and opens to nothing.
example (key value : W) :
    (empty : SparseTree W).add key value 0 0 = some (.leaf key value) ∧
      (empty : SparseTree W).set key value 0 = none ∧ (empty : SparseTree W).sides key 0 = [] ∧
        split key value key value 0 0 = none := by
  simp [add, set, sides, split]

end operations

@[simp] theorem slot_empty (key : W) (i : Nat) : (empty : SparseTree W).slot key i = .empty := rfl

@[simp] theorem slot_leaf (key found value : W) (i : Nat) :
    (leaf found value).slot key i = .leaf found value := rfl

theorem slot_node (key : W) (i : Nat) (left right : SparseTree W) :
    (node left right).slot key i = (if bit key i then right else left).slot key (i + 1) := by
  cases h : bit key i <;> simp [slot, h]

theorem sides_node (key : W) (i : Nat) (left right : SparseTree W) :
    (node left right).sides key i =
      (if bit key i then left else right) :: (if bit key i then right else left).sides key (i + 1) := by
  cases h : bit key i <;> simp [sides, h]

theorem slot_cases (key : W) (i : Nat) (t : SparseTree W) :
    t.slot key i = .empty ∨
      ∃ found value, t.slot key i = .leaf found value ∧ (found, value) ∈ t.leaves := by
  induction t generalizing i with
  | empty => exact .inl rfl
  | leaf found value => exact .inr ⟨found, value, rfl, by simp [leaves]⟩
  | node left right ihLeft ihRight =>
      rw [slot_node]
      cases bit key i
      · rcases ihLeft (i + 1) with h | ⟨found, value, h, member⟩
        · exact .inl h
        · exact .inr ⟨found, value, h, by simp [leaves, member]⟩
      · rcases ihRight (i + 1) with h | ⟨found, value, h, member⟩
        · exact .inl h
        · exact .inr ⟨found, value, h, by simp [leaves, member]⟩

theorem length_sides_le (key : W) (i : Nat) (t : SparseTree W) : (t.sides key i).length ≤ t.height := by
  induction t generalizing i with
  | empty | leaf => exact Nat.zero_le _
  | node left right ihLeft ihRight =>
      rw [sides_node, List.length_cons, height, Nat.add_le_add_iff_right]
      cases bit key i
      · exact Nat.le_trans (ihLeft (i + 1)) (Nat.le_max_left _ _)
      · exact Nat.le_trans (ihRight (i + 1)) (Nat.le_max_right _ _)

theorem sides_slot (key : W) (i j : Nat) (t : SparseTree W) : (t.slot key i).sides key j = [] := by
  rcases slot_cases key i t with ends | ⟨found, value, ends, _⟩ <;> rw [ends] <;> rfl

theorem slot_mem {key found value : W} {i : Nat} {t : SparseTree W}
    (ends : t.slot key i = .leaf found value) : (found, value) ∈ t.leaves := by
  rcases slot_cases key i t with h | ⟨found', value', h, member⟩
  · rw [ends] at h
    cases h
  · rw [ends] at h
    cases h
    exact member

theorem slot_of_mem {i : Nat} {t : SparseTree W} (ordered : t.Ordered i) {key value : W}
    (member : (key, value) ∈ t.leaves) : t.slot key i = .leaf key value := by
  induction t generalizing i with
  | empty => simp [leaves] at member
  | leaf found old =>
      simp only [leaves, List.mem_singleton, Prod.mk.injEq] at member
      obtain ⟨rfl, rfl⟩ := member
      rfl
  | node left right ihLeft ihRight =>
      obtain ⟨leftBits, rightBits, leftOrdered, rightOrdered⟩ := ordered
      rw [slot_node]
      rcases List.mem_append.1 member with inside | inside
      · simpa [leftBits _ inside] using ihLeft leftOrdered inside
      · simpa [rightBits _ inside] using ihRight rightOrdered inside

theorem nodup_keys {i : Nat} {t : SparseTree W} (ordered : t.Ordered i) :
    (t.leaves.map Prod.fst).Nodup := by
  induction t generalizing i with
  | empty => simp [leaves]
  | leaf => simp [leaves]
  | node left right ihLeft ihRight =>
      obtain ⟨leftBits, rightBits, leftOrdered, rightOrdered⟩ := ordered
      rw [leaves, List.map_append]
      refine List.Nodup.append (ihLeft leftOrdered) (ihRight rightOrdered) ?_
      intro key inLeft inRight
      obtain ⟨entry, leftMember, rfl⟩ := List.mem_map.1 inLeft
      obtain ⟨entry', rightMember, same⟩ := List.mem_map.1 inRight
      have clash := rightBits entry' rightMember
      rw [same, leftBits entry leftMember] at clash
      cases clash

def descend (key : W) : Nat → Nat → SparseTree W → Option (SparseTree W)
  | _, 0, t => some t
  | i, steps + 1, .node left right => (if bit key i then right else left).descend key (i + 1) steps
  | _, _ + 1, _ => none

def graft (key : W) : Nat → Nat → SparseTree W → SparseTree W → SparseTree W
  | _, 0, _, new => new
  | i, steps + 1, .node left right, new =>
      if bit key i then .node left (right.graft key (i + 1) steps new)
      else .node (left.graft key (i + 1) steps new) right
  | _, _ + 1, t, _ => t

theorem slot_descend {key : W} {i steps : Nat} {t sub : SparseTree W}
    (reached : t.descend key i steps = some sub) : t.slot key i = sub.slot key (i + steps) := by
  induction steps generalizing i t with
  | zero =>
      cases reached
      rfl
  | succ steps ih =>
      cases t with
      | empty | leaf => simp [descend] at reached
      | node left right =>
          rw [slot_node, ih reached, Nat.add_right_comm, Nat.add_assoc]

theorem split_cases {key value oldKey oldValue : W} {levels i : Nat} {t : SparseTree W}
    (done : split key value oldKey oldValue levels i = some t) :
    ∃ rest, levels = rest + 1 ∧
      ((bit key i = bit oldKey i ∧ ∃ below, split key value oldKey oldValue rest (i + 1) = some below ∧
        t = if bit key i then .node .empty below else .node below .empty) ∨
      (bit key i = true ∧ bit oldKey i = false ∧ t = .node (.leaf oldKey oldValue) (.leaf key value)) ∨
      (bit key i = false ∧ bit oldKey i = true ∧ t = .node (.leaf key value) (.leaf oldKey oldValue))) := by
  cases levels with
  | zero => simp [split] at done
  | succ levels =>
      refine ⟨levels, rfl, ?_⟩
      simp only [split] at done
      split_ifs at done with same side
      · obtain ⟨below, deeper, rfl⟩ := Option.map_eq_some_iff.1 done
        exact .inl ⟨same, below, deeper, by simp [side]⟩
      · obtain ⟨below, deeper, rfl⟩ := Option.map_eq_some_iff.1 done
        exact .inl ⟨same, below, deeper, by simp [side]⟩
      · next side =>
          cases done
          exact .inr (.inl ⟨side, by simpa [side] using same, rfl⟩)
      · next side =>
          cases done
          exact .inr (.inr ⟨by simpa using side, by simpa [side] using same, rfl⟩)

theorem split_leaves {key value oldKey oldValue : W} {levels i : Nat} {t : SparseTree W}
    (done : split key value oldKey oldValue levels i = some t) :
    t.leaves.Perm [(key, value), (oldKey, oldValue)] := by
  induction levels generalizing i t with
  | zero => simp [split] at done
  | succ levels ih =>
      obtain ⟨rest, same, ⟨_, below, deeper, rfl⟩ | ⟨_, _, rfl⟩ | ⟨_, _, rfl⟩⟩ := split_cases done
      · cases same
        split <;> simpa [leaves] using ih deeper
      · exact List.Perm.swap _ _ _
      · exact List.Perm.refl _

theorem split_ordered {key value oldKey oldValue : W} {levels i : Nat} {t : SparseTree W}
    (done : split key value oldKey oldValue levels i = some t) : t.Ordered i := by
  induction levels generalizing i t with
  | zero => simp [split] at done
  | succ levels ih =>
      obtain ⟨rest, same, ⟨shared, below, deeper, rfl⟩ | ⟨new, old, rfl⟩ | ⟨new, old, rfl⟩⟩ :=
        split_cases done
      · cases same
        have inside : ∀ entry ∈ below.leaves, bit entry.1 i = bit key i := by
          intro entry member
          have either := (split_leaves deeper).mem_iff.1 member
          simp only [List.mem_cons, List.not_mem_nil, or_false] at either
          rcases either with rfl | rfl
          · rfl
          · exact shared.symm
        have inner := ih deeper
        cases side : bit key i <;> rw [side] at inside
        · exact ⟨inside, by simp [leaves], inner, trivial⟩
        · exact ⟨by simp [leaves], inside, trivial, inner⟩
      · simp [Ordered, leaves, new, old]
      · simp [Ordered, leaves, new, old]

theorem split_compact {key value oldKey oldValue : W} {levels i : Nat} {t : SparseTree W}
    (done : split key value oldKey oldValue levels i = some t) : t.Compact := by
  induction levels generalizing i t with
  | zero => simp [split] at done
  | succ levels ih =>
      obtain ⟨rest, same, ⟨_, below, deeper, rfl⟩ | ⟨_, _, rfl⟩ | ⟨_, _, rfl⟩⟩ := split_cases done
      · cases same
        have two := (split_leaves deeper).length_eq
        have inner := ih deeper
        split <;> simp_all [Compact, leaves]
      · simp [Compact, leaves]
      · simp [Compact, leaves]

theorem split_height {key value oldKey oldValue : W} {levels i : Nat} {t : SparseTree W}
    (done : split key value oldKey oldValue levels i = some t) : t.height ≤ levels := by
  induction levels generalizing i t with
  | zero => simp [split] at done
  | succ levels ih =>
      obtain ⟨rest, same, ⟨_, below, deeper, rfl⟩ | ⟨_, _, rfl⟩ | ⟨_, _, rfl⟩⟩ := split_cases done
      · cases same
        have bound := ih deeper
        split <;> simp [height, bound]
      · simp [height]
      · simp [height]

theorem split_isSome {key oldKey : W} (value oldValue : W) {levels i j : Nat}
    (inside : j < levels) (differ : bit key (i + j) ≠ bit oldKey (i + j)) :
    (split key value oldKey oldValue levels i).isSome := by
  induction levels generalizing i j with
  | zero => omega
  | succ levels ih =>
      by_cases same : bit key i = bit oldKey i
      · cases j with
        | zero => exact absurd same differ
        | succ j =>
            simp only [split, same, if_true, Option.isSome_map]
            exact ih (j := j) (by omega) (by rwa [Nat.add_right_comm])
      · simp only [split, same, if_false]
        split_ifs <;> rfl

theorem split_succ {key value oldKey oldValue : W} {levels i : Nat} {t : SparseTree W}
    (done : split key value oldKey oldValue levels i = some t) :
    split key value oldKey oldValue (levels + 1) i = some t := by
  induction levels generalizing i t with
  | zero => cases done
  | succ levels ih =>
      obtain ⟨rest, same, ⟨shared, below, deeper, rfl⟩ | ⟨new, old, rfl⟩ | ⟨new, old, rfl⟩⟩ := split_cases done
      · cases same
        rw [split, if_pos shared, ih deeper, Option.map_some]
      · rw [split, if_neg (by simp [new, old]), if_pos new]
      · rw [split, if_neg (by simp [new, old]), if_neg (by simp [new])]

theorem nodup_leaves {i : Nat} {t : SparseTree W} (ordered : t.Ordered i) : t.leaves.Nodup :=
  (nodup_keys ordered).of_map Prod.fst

theorem Ordered.mem_left_iff {i : Nat} {left right : SparseTree W}
    (ordered : (node left right).Ordered i) (entry : W × W) :
    entry ∈ left.leaves ↔ entry ∈ (node left right).leaves ∧ bit entry.1 i = false := by
  obtain ⟨leftBits, rightBits, _, _⟩ := ordered
  simp only [leaves, List.mem_append]
  constructor
  · intro inside
    exact ⟨.inl inside, leftBits entry inside⟩
  · rintro ⟨inside | inside, side⟩
    · exact inside
    · rw [rightBits entry inside] at side
      cases side

theorem Ordered.mem_right_iff {i : Nat} {left right : SparseTree W}
    (ordered : (node left right).Ordered i) (entry : W × W) :
    entry ∈ right.leaves ↔ entry ∈ (node left right).leaves ∧ bit entry.1 i = true := by
  obtain ⟨leftBits, rightBits, _, _⟩ := ordered
  simp only [leaves, List.mem_append]
  constructor
  · intro inside
    exact ⟨.inr inside, rightBits entry inside⟩
  · rintro ⟨inside | inside, side⟩
    · rw [leftBits entry inside] at side
      cases side
    · exact inside

theorem eq_of_leaves {i : Nat} {t t' : SparseTree W} (ordered : t.Ordered i) (compact : t.Compact)
    (ordered' : t'.Ordered i) (compact' : t'.Compact)
    (same : ∀ entry, entry ∈ t.leaves ↔ entry ∈ t'.leaves) : t = t' := by
  induction t generalizing i t' with
  | empty =>
      have count := ((List.perm_ext_iff_of_nodup (nodup_leaves ordered) (nodup_leaves ordered')).2
        same).length_eq
      cases t' with
      | empty => rfl
      | leaf => simp [leaves] at count
      | node left' right' =>
          have two := compact'.1
          simp only [leaves, List.length_append, List.length_nil] at count
          omega
  | leaf key value =>
      have perm := (List.perm_ext_iff_of_nodup (nodup_leaves ordered) (nodup_leaves ordered')).2 same
      cases t' with
      | empty => simp [leaves] at perm
      | leaf key' value' =>
          have equal := List.singleton_perm_singleton.1 perm
          cases equal
          rfl
      | node left' right' =>
          have two := compact'.1
          have count := perm.length_eq
          simp only [leaves, List.length_append, List.length_singleton] at count
          omega
  | node left right ihLeft ihRight =>
      obtain ⟨two, leftCompact, rightCompact⟩ := compact
      cases t' with
      | empty | leaf =>
          -- A compact node has two leaves at least.
          have count := ((List.perm_ext_iff_of_nodup (nodup_leaves ordered) (nodup_leaves ordered')).2
            same).length_eq
          simp only [leaves, List.length_append, List.length_singleton, List.length_nil] at count
          omega
      | node left' right' =>
          obtain ⟨_, leftCompact', rightCompact'⟩ := compact'
          have lefts := ihLeft ordered.2.2.1 leftCompact ordered'.2.2.1 leftCompact' fun entry => by
            rw [ordered.mem_left_iff, ordered'.mem_left_iff, same]
          have rights := ihRight ordered.2.2.2 rightCompact ordered'.2.2.2 rightCompact' fun entry => by
            rw [ordered.mem_right_iff, ordered'.mem_right_iff, same]
          rw [lefts, rights]

/-- Paths follow the keys' bits, no node is superfluous, and no path is longer than the levels. -/
structure Shaped (levels : Nat) (t : SparseTree W) : Prop where
  ordered : t.Ordered 0
  compact : t.Compact
  height : t.height ≤ levels

theorem shaped_empty (levels : Nat) : (empty : SparseTree W).Shaped levels :=
  ⟨trivial, trivial, Nat.zero_le _⟩

variable [DecidableEq W]

theorem lookup_eq_some_iff {i : Nat} {t : SparseTree W} (ordered : t.Ordered i) (key value : W) :
    t.lookup key i = some value ↔ (key, value) ∈ t.leaves := by
  constructor
  · intro found
    unfold lookup at found
    split at found
    · next stored old ends =>
        split_ifs at found with same
        cases found
        exact same ▸ slot_mem ends
    · cases found
  · intro member
    simp [lookup, slot_of_mem ordered member]

theorem lookup_eq_none_iff {i : Nat} {t : SparseTree W} (ordered : t.Ordered i) (key : W) :
    t.lookup key i = none ↔ ∀ value, (key, value) ∉ t.leaves := by
  rw [Option.eq_none_iff_forall_not_mem]
  exact forall_congr' fun value => not_congr (lookup_eq_some_iff ordered key value)

theorem Shaped.eq_of_lookup {levels levels' : Nat} {t t' : SparseTree W} (shaped : t.Shaped levels)
    (shaped' : t'.Shaped levels') (same : ∀ key, t.lookup key 0 = t'.lookup key 0) : t = t' := by
  refine eq_of_leaves shaped.ordered shaped.compact shaped'.ordered shaped'.compact fun entry => ?_
  rw [← lookup_eq_some_iff shaped.ordered, ← lookup_eq_some_iff shaped'.ordered, same]

theorem lookup_node (key : W) (i : Nat) (left right : SparseTree W) :
    (node left right).lookup key i = (if bit key i then right else left).lookup key (i + 1) := by
  simp only [lookup, slot_node]

theorem add_leaf (key value found old : W) (levels i : Nat) :
    (leaf found old).add key value levels i =
      if found = key then none else split key value found old levels i := by
  cases levels <;> rfl

theorem add_node_cases {key value : W} {levels i : Nat} {left right t : SparseTree W}
    (done : (node left right).add key value levels i = some t) :
    ∃ rest, levels = rest + 1 ∧
      ((bit key i = true ∧ ∃ below, right.add key value rest (i + 1) = some below ∧ t = .node left below) ∨
        (bit key i = false ∧ ∃ below, left.add key value rest (i + 1) = some below ∧
          t = .node below right)) := by
  cases levels with
  | zero => simp [add] at done
  | succ levels =>
      refine ⟨levels, rfl, ?_⟩
      simp only [add] at done
      split_ifs at done with side <;> obtain ⟨below, deeper, rfl⟩ := Option.map_eq_some_iff.1 done
      · exact .inl ⟨side, below, deeper, rfl⟩
      · exact .inr ⟨by simpa using side, below, deeper, rfl⟩

theorem add_leaves {key value : W} {levels i : Nat} {t t' : SparseTree W}
    (done : t.add key value levels i = some t') : t'.leaves.Perm ((key, value) :: t.leaves) := by
  induction t generalizing levels i t' with
  | empty => cases levels <;> cases done <;> exact List.Perm.refl _
  | leaf found old =>
      rw [add_leaf] at done
      split_ifs at done
      exact split_leaves done
  | node left right ihLeft ihRight =>
      obtain ⟨rest, rfl, ⟨_, below, deeper, rfl⟩ | ⟨_, below, deeper, rfl⟩⟩ := add_node_cases done
      · exact (List.Perm.append_left _ (ihRight deeper)).trans List.perm_middle
      · exact List.Perm.append_right _ (ihLeft deeper)

theorem add_ordered {key value : W} {levels i : Nat} {t t' : SparseTree W}
    (ordered : t.Ordered i) (done : t.add key value levels i = some t') : t'.Ordered i := by
  induction t generalizing levels i t' with
  | empty => cases levels <;> cases done <;> trivial
  | leaf found old =>
      rw [add_leaf] at done
      split_ifs at done
      exact split_ordered done
  | node left right ihLeft ihRight =>
      obtain ⟨leftBits, rightBits, leftOrdered, rightOrdered⟩ := ordered
      obtain ⟨rest, rfl, ⟨side, below, deeper, rfl⟩ | ⟨side, below, deeper, rfl⟩⟩ := add_node_cases done
      · refine ⟨leftBits, ?_, leftOrdered, ihRight rightOrdered deeper⟩
        intro entry member
        rcases List.mem_cons.1 ((add_leaves deeper).mem_iff.1 member) with rfl | old
        · exact side
        · exact rightBits entry old
      · refine ⟨?_, rightBits, ihLeft leftOrdered deeper, rightOrdered⟩
        intro entry member
        rcases List.mem_cons.1 ((add_leaves deeper).mem_iff.1 member) with rfl | old
        · exact side
        · exact leftBits entry old

theorem add_compact {key value : W} {levels i : Nat} {t t' : SparseTree W}
    (compact : t.Compact) (done : t.add key value levels i = some t') : t'.Compact := by
  induction t generalizing levels i t' with
  | empty => cases levels <;> cases done <;> trivial
  | leaf found old =>
      rw [add_leaf] at done
      split_ifs at done
      exact split_compact done
  | node left right ihLeft ihRight =>
      obtain ⟨two, leftCompact, rightCompact⟩ := compact
      obtain ⟨rest, rfl, ⟨_, below, deeper, rfl⟩ | ⟨_, below, deeper, rfl⟩⟩ := add_node_cases done
      · have longer := (add_leaves deeper).length_eq
        rw [List.length_cons] at longer
        exact ⟨by omega, leftCompact, ihRight rightCompact deeper⟩
      · have longer := (add_leaves deeper).length_eq
        rw [List.length_cons] at longer
        exact ⟨by omega, ihLeft leftCompact deeper, rightCompact⟩

theorem add_height {key value : W} {levels i : Nat} {t t' : SparseTree W}
    (bound : t.height ≤ levels) (done : t.add key value levels i = some t') : t'.height ≤ levels := by
  induction t generalizing levels i t' with
  | empty => cases levels <;> cases done <;> simp [height]
  | leaf found old =>
      rw [add_leaf] at done
      split_ifs at done
      exact split_height done
  | node left right ihLeft ihRight =>
      obtain ⟨rest, rfl, ⟨_, below, deeper, rfl⟩ | ⟨_, below, deeper, rfl⟩⟩ := add_node_cases done
      · simp only [height, Nat.add_le_add_iff_right, Nat.max_le] at bound ⊢
        exact ⟨bound.1, ihRight bound.2 deeper⟩
      · simp only [height, Nat.add_le_add_iff_right, Nat.max_le] at bound ⊢
        exact ⟨ihLeft bound.1 deeper, bound.2⟩

theorem add_isSome {key : W} (value : W) {levels i : Nat} {t : SparseTree W}
    (bound : t.height ≤ levels)
    (differ : ∀ entry ∈ t.leaves, ∃ j < levels, bit key (i + j) ≠ bit entry.1 (i + j))
    (ordered : t.Ordered i) : (t.add key value levels i).isSome := by
  induction t generalizing levels i with
  | empty => cases levels <;> rfl
  | leaf found old =>
      obtain ⟨j, inside, bits⟩ := differ (found, old) (by simp [leaves])
      have distinct : found ≠ key := by
        rintro rfl
        exact bits rfl
      cases levels <;> simpa only [add, distinct, if_false] using split_isSome value old inside bits
  | node left right ihLeft ihRight =>
      obtain ⟨leftBits, rightBits, leftOrdered, rightOrdered⟩ := ordered
      cases levels with
      | zero => simp [height] at bound
      | succ levels =>
          simp only [height, Nat.add_le_add_iff_right, Nat.max_le] at bound
          -- On the key's own side the shared bit `i` cannot be the one that differs.
          have later {side : SparseTree W} (mem : ∀ entry ∈ side.leaves, entry ∈ (node left right).leaves)
              (bits : ∀ entry ∈ side.leaves, bit entry.1 i = bit key i) :
              ∀ entry ∈ side.leaves, ∃ j < levels, bit key (i + 1 + j) ≠ bit entry.1 (i + 1 + j) := by
            intro entry member
            obtain ⟨j, inside, different⟩ := differ entry (mem entry member)
            cases j with
            | zero => exact absurd (bits entry member).symm different
            | succ j => exact ⟨j, by omega, by rwa [Nat.add_right_comm, Nat.add_assoc]⟩
          simp only [add]
          cases side : bit key i
          · simpa using ihLeft bound.1 (later (by simp [leaves]; tauto)
              (fun entry member => by rw [leftBits entry member, side])) leftOrdered
          · simpa using ihRight bound.2 (later (by simp [leaves]; tauto)
              (fun entry member => by rw [rightBits entry member, side])) rightOrdered

theorem add_succ {key value : W} {levels i : Nat} {t t' : SparseTree W}
    (done : t.add key value levels i = some t') : t.add key value (levels + 1) i = some t' := by
  induction t generalizing levels i t' with
  | empty =>
      cases levels <;> cases done <;> rfl
  | leaf found old =>
      rw [add_leaf] at done ⊢
      split_ifs at done ⊢
      exact split_succ done
  | node left right ihLeft ihRight =>
      obtain ⟨rest, rfl, ⟨side, below, deeper, rfl⟩ | ⟨side, below, deeper, rfl⟩⟩ := add_node_cases done
      · rw [add, if_pos side, ihRight deeper, Option.map_some]
      · rw [add, if_neg (by simp [side]), ihLeft deeper, Option.map_some]

theorem add_eq_none_of_lookup {key value old : W} {levels i : Nat} {t : SparseTree W}
    (stored : t.lookup key i = some old) : t.add key value levels i = none := by
  induction t generalizing levels i with
  | empty => simp [lookup] at stored
  | leaf found present =>
      simp only [lookup, slot_leaf] at stored
      split_ifs at stored with same
      cases levels <;> simp [add, same]
  | node left right ihLeft ihRight =>
      rw [lookup_node] at stored
      cases levels with
      | zero => rfl
      | succ levels =>
          cases side : bit key i <;> rw [side] at stored
          · simpa [add, side] using ihLeft stored
          · simpa [add, side] using ihRight stored

theorem set_node_cases {key value old : W} {i : Nat} {left right t : SparseTree W}
    (done : (node left right).set key value i = some (old, t)) :
    (bit key i = true ∧ ∃ below, right.set key value (i + 1) = some (old, below) ∧ t = .node left below) ∨
      (bit key i = false ∧ ∃ below, left.set key value (i + 1) = some (old, below) ∧
        t = .node below right) := by
  simp only [set] at done
  split_ifs at done with side <;> obtain ⟨⟨found, below⟩, deeper, same⟩ := Option.map_eq_some_iff.1 done <;>
    cases same
  · exact .inl ⟨side, below, deeper, rfl⟩
  · exact .inr ⟨by simpa using side, below, deeper, rfl⟩

theorem set_leaf_cases {key value found present old : W} {i : Nat} {t : SparseTree W}
    (done : (leaf found present).set key value i = some (old, t)) :
    found = key ∧ present = old ∧ t = .leaf key value := by
  simp only [set] at done
  split_ifs at done with same
  cases done
  exact ⟨same, rfl, rfl⟩

theorem set_leaves {key value old : W} {i : Nat} {t t' : SparseTree W}
    (done : t.set key value i = some (old, t')) :
    ∃ rest, t.leaves.Perm ((key, old) :: rest) ∧ t'.leaves.Perm ((key, value) :: rest) := by
  induction t generalizing i t' with
  | empty => simp [set] at done
  | leaf found present =>
      obtain ⟨rfl, rfl, rfl⟩ := set_leaf_cases done
      exact ⟨[], List.Perm.refl _, List.Perm.refl _⟩
  | node left right ihLeft ihRight =>
      obtain ⟨_, below, deeper, rfl⟩ | ⟨_, below, deeper, rfl⟩ := set_node_cases done
      · obtain ⟨rest, before, after⟩ := ihRight deeper
        exact ⟨left.leaves ++ rest, (List.Perm.append_left _ before).trans List.perm_middle,
          (List.Perm.append_left _ after).trans List.perm_middle⟩
      · obtain ⟨rest, before, after⟩ := ihLeft deeper
        exact ⟨rest ++ right.leaves, List.Perm.append_right _ before, List.Perm.append_right _ after⟩

theorem set_keys {key value old : W} {i : Nat} {t t' : SparseTree W}
    (done : t.set key value i = some (old, t')) :
    (t'.leaves.map Prod.fst).Perm (t.leaves.map Prod.fst) := by
  obtain ⟨rest, before, after⟩ := set_leaves done
  exact (after.map Prod.fst).trans (before.map Prod.fst).symm

theorem set_ordered {key value old : W} {i : Nat} {t t' : SparseTree W}
    (ordered : t.Ordered i) (done : t.set key value i = some (old, t')) : t'.Ordered i := by
  induction t generalizing i t' with
  | empty => simp [set] at done
  | leaf found present =>
      obtain ⟨rfl, rfl, rfl⟩ := set_leaf_cases done
      trivial
  | node left right ihLeft ihRight =>
      obtain ⟨leftBits, rightBits, leftOrdered, rightOrdered⟩ := ordered
      -- Only values change, so each side keeps the bits of its keys.
      have keep {side below : SparseTree W} {b : Bool}
          (keys : (below.leaves.map Prod.fst).Perm (side.leaves.map Prod.fst))
          (bits : ∀ entry ∈ side.leaves, bit entry.1 i = b) : ∀ entry ∈ below.leaves, bit entry.1 i = b := by
        intro entry member
        obtain ⟨entry', present, same⟩ := List.mem_map.1 (keys.mem_iff.1 (List.mem_map_of_mem member))
        rw [← same]
        exact bits entry' present
      obtain ⟨_, below, deeper, rfl⟩ | ⟨_, below, deeper, rfl⟩ := set_node_cases done
      · exact ⟨leftBits, keep (set_keys deeper) rightBits, leftOrdered, ihRight rightOrdered deeper⟩
      · exact ⟨keep (set_keys deeper) leftBits, rightBits, ihLeft leftOrdered deeper, rightOrdered⟩

theorem set_compact {key value old : W} {i : Nat} {t t' : SparseTree W}
    (compact : t.Compact) (done : t.set key value i = some (old, t')) : t'.Compact := by
  induction t generalizing i t' with
  | empty => simp [set] at done
  | leaf found present =>
      obtain ⟨rfl, rfl, rfl⟩ := set_leaf_cases done
      trivial
  | node left right ihLeft ihRight =>
      obtain ⟨two, leftCompact, rightCompact⟩ := compact
      obtain ⟨_, below, deeper, rfl⟩ | ⟨_, below, deeper, rfl⟩ := set_node_cases done <;>
        have count := (set_keys deeper).length_eq <;> simp only [List.length_map] at count
      · exact ⟨by omega, leftCompact, ihRight rightCompact deeper⟩
      · exact ⟨by omega, ihLeft leftCompact deeper, rightCompact⟩

theorem set_height {key value old : W} {i : Nat} {t t' : SparseTree W}
    (done : t.set key value i = some (old, t')) : t'.height = t.height := by
  induction t generalizing i t' with
  | empty => simp [set] at done
  | leaf found present =>
      obtain ⟨rfl, rfl, rfl⟩ := set_leaf_cases done
      rfl
  | node left right ihLeft ihRight =>
      obtain ⟨_, below, deeper, rfl⟩ | ⟨_, below, deeper, rfl⟩ := set_node_cases done
      · simp [height, ihRight deeper]
      · simp [height, ihLeft deeper]

theorem set_eq_none_iff {key value : W} {i : Nat} {t : SparseTree W} :
    t.set key value i = none ↔ t.lookup key i = none := by
  induction t generalizing i with
  | empty => simp [set, lookup]
  | leaf found present => by_cases same : found = key <;> simp [set, lookup, same]
  | node left right ihLeft ihRight =>
      rw [lookup_node]
      cases side : bit key i
      · simpa [set, side] using ihLeft
      · simpa [set, side] using ihRight

theorem lookup_of_set {key value old : W} {i : Nat} {t t' : SparseTree W}
    (done : t.set key value i = some (old, t')) : t.lookup key i = some old := by
  induction t generalizing i t' with
  | empty => simp [set] at done
  | leaf found present =>
      obtain ⟨rfl, rfl, rfl⟩ := set_leaf_cases done
      simp [lookup]
  | node left right ihLeft ihRight =>
      rw [lookup_node]
      obtain ⟨side, below, deeper, rfl⟩ | ⟨side, below, deeper, rfl⟩ := set_node_cases done
      · simpa [side] using ihRight deeper
      · simpa [side] using ihLeft deeper

theorem lookup_add {key value : W} {levels i : Nat} {t t' : SparseTree W} (ordered : t.Ordered i)
    (done : t.add key value levels i = some t') (other : W) :
    t'.lookup other i = if other = key then some value else t.lookup other i := by
  have after := add_ordered ordered done
  apply Option.ext
  intro found
  rw [lookup_eq_some_iff after, (add_leaves done).mem_iff, List.mem_cons, Prod.mk.injEq]
  by_cases same : other = key
  · subst same
    have fresh : (other, found) ∉ t.leaves := by
      intro member
      rw [add_eq_none_of_lookup ((lookup_eq_some_iff ordered other found).2 member)] at done
      cases done
    simp [fresh, eq_comm]
  · simp [same, lookup_eq_some_iff ordered]

theorem lookup_set {key value old : W} {i : Nat} {t t' : SparseTree W} (ordered : t.Ordered i)
    (done : t.set key value i = some (old, t')) (other : W) :
    t'.lookup other i = if other = key then some value else t.lookup other i := by
  have after := set_ordered ordered done
  obtain ⟨rest, before, now⟩ := set_leaves done
  by_cases same : other = key
  · subst same
    simpa using (lookup_eq_some_iff after other value).2 (now.mem_iff.2 (by simp))
  · apply Option.ext
    intro found
    rw [if_neg same, lookup_eq_some_iff after, lookup_eq_some_iff ordered, now.mem_iff, before.mem_iff]
    simp [same]

omit [DecidableEq W] in
theorem sides_descend {key : W} {i steps : Nat} {t sub : SparseTree W}
    (reached : t.descend key i steps = some sub) :
    (t.sides key i).length = steps + (sub.sides key (i + steps)).length := by
  induction steps generalizing i t with
  | zero =>
      cases reached
      rw [Nat.add_zero, Nat.zero_add]
  | succ steps ih =>
      cases t with
      | empty | leaf => cases reached
      | node left right =>
          rw [sides_node, List.length_cons, ih reached, Nat.add_right_comm, Nat.add_right_comm i 1,
            Nat.add_assoc i]

theorem add_descend {key value : W} {levels i steps : Nat} {t sub sub' : SparseTree W}
    (reached : t.descend key i steps = some sub)
    (done : sub.add key value levels (i + steps) = some sub') :
    t.add key value (levels + steps) i = some (t.graft key i steps sub') := by
  induction steps generalizing i t with
  | zero =>
      cases reached
      simpa [graft] using done
  | succ steps ih =>
      cases t with
      | empty | leaf => simp [descend] at reached
      | node left right =>
          have deeper := ih (t := if bit key i then right else left) (i := i + 1) reached
            (by rwa [Nat.add_right_comm, Nat.add_assoc])
          rw [← Nat.add_assoc]
          cases side : bit key i <;> simp only [side, if_true] at deeper
          · simpa [add, graft, side] using deeper
          · simpa [add, graft, side] using deeper

theorem set_descend {key value old : W} {i steps : Nat} {t sub sub' : SparseTree W}
    (reached : t.descend key i steps = some sub)
    (done : sub.set key value (i + steps) = some (old, sub')) :
    t.set key value i = some (old, t.graft key i steps sub') := by
  induction steps generalizing i t with
  | zero =>
      cases reached
      simpa [graft] using done
  | succ steps ih =>
      cases t with
      | empty | leaf => simp [descend] at reached
      | node left right =>
          have deeper := ih (t := if bit key i then right else left) (i := i + 1) reached
            (by rwa [Nat.add_right_comm, Nat.add_assoc])
          cases side : bit key i <;> simp only [side, if_true] at deeper
          · simpa [set, graft, side] using deeper
          · simpa [set, graft, side] using deeper

theorem Shaped.add {key value : W} {levels : Nat} {t t' : SparseTree W} (shaped : t.Shaped levels)
    (done : t.add key value levels 0 = some t') : t'.Shaped levels :=
  ⟨add_ordered shaped.ordered done, add_compact shaped.compact done, add_height shaped.height done⟩

theorem Shaped.set {key value old : W} {levels : Nat} {t t' : SparseTree W} (shaped : t.Shaped levels)
    (done : t.set key value 0 = some (old, t')) : t'.Shaped levels :=
  ⟨set_ordered shaped.ordered done, set_compact shaped.compact done,
    le_of_eq_of_le (set_height done) shaped.height⟩

end SparseTree

end SparseMerkle
