import Mootvote.Circom.Field
import Mootvote.Shared.SparseProof

set_option autoImplicit false

/-!
# Trees over words and over field elements

The stored trees hash words, the circuits hash the field elements that the words encode.
-/

namespace Mootvote

open Shared SparseMerkle

namespace Word

theorem ofFr_zero : ofFr 0 = 0 := by decide

theorem ofFr_one : ofFr 1 = 1 := by decide

theorem ofFr_eq_zero {x : Fr} : ofFr x = 0 ↔ x = 0 := by
  constructor
  · intro zero
    exact ofFr_injective (zero.trans ofFr_zero.symm)
  · rintro rfl
    exact ofFr_zero

/-- The witness generator reads a word modulo the field's order. -/
def reduce (w : Word) : Fr := (w.toNat : Fr)

theorem reduce_ofFr (x : Fr) : reduce (ofFr x) = x := by
  rw [reduce, toNat_ofFr, ZMod.natCast_zmod_val]

theorem val_reduce (w : Word) : (reduce w).val = w.toNat % scalarModulus := ZMod.val_natCast _ _

theorem ofFr_reduce {w : Word} (canonical : w.toNat < scalarModulus) : ofFr (reduce w) = w := by
  apply BitVec.eq_of_toNat_eq
  rw [toNat_ofFr, val_reduce, Nat.mod_eq_of_lt canonical]

theorem toFrs_map_ofFr (xs : List Fr) : toFrs (xs.map ofFr) = some xs := toFrs_eq_some_iff.2 rfl

theorem toNat_lt {w : Word} {x : Fr} (encodes : ofFr x = w) : w.toNat < scalarModulus := by
  rw [← encodes, toNat_ofFr]
  exact ZMod.val_lt x

end Word

open Word

/-- Poseidon on words: it refuses a word that encodes no field element. -/
def wordHash (H : IdealHash Fr) : IdealHash Word where
  hash ws := (toFrs ws).bind fun xs => (H.hash xs).map ofFr
  injective := by
    intro ws ws' h left right
    obtain ⟨xs, decoded, hashed⟩ := Option.bind_eq_some_iff.1 left
    obtain ⟨xs', decoded', hashed'⟩ := Option.bind_eq_some_iff.1 right
    obtain ⟨x, isX, rfl⟩ := Option.map_eq_some_iff.1 hashed
    obtain ⟨x', isX', same⟩ := Option.map_eq_some_iff.1 hashed'
    rw [ofFr_injective same] at isX'
    rw [toFrs_eq_some_iff.1 decoded, toFrs_eq_some_iff.1 decoded', H.injective isX isX']
  ne_zero := by
    intro ws zero
    obtain ⟨xs, _, hashed⟩ := Option.bind_eq_some_iff.1 zero
    obtain ⟨x, isX, same⟩ := Option.map_eq_some_iff.1 hashed
    rw [ofFr_eq_zero.1 same] at isX
    exact H.ne_zero xs isX

section transfer

variable {H : IdealHash Fr}

theorem wordHash_ofFr (H : IdealHash Fr) (xs : List Fr) :
    (wordHash H).hash (xs.map ofFr) = (H.hash xs).map ofFr := by
  simp only [wordHash, toFrs_map_ofFr, Option.bind_some]

theorem wordHash_eq_some_iff {ws : List Word} {h : Word} :
    (wordHash H).hash ws = some h ↔ ∃ xs x, ws = xs.map ofFr ∧ H.hash xs = some x ∧ ofFr x = h := by
  constructor
  · intro hashed
    obtain ⟨xs, decoded, mapped⟩ := Option.bind_eq_some_iff.1 hashed
    obtain ⟨x, isX, same⟩ := Option.map_eq_some_iff.1 mapped
    exact ⟨xs, x, toFrs_eq_some_iff.1 decoded, isX, same⟩
  · rintro ⟨xs, x, rfl, isX, rfl⟩
    rw [wordHash_ofFr, isX, Option.map_some]

theorem leafHash_ofFr (key value : Fr) :
    leafHash (wordHash H) (ofFr key) (ofFr value) = (leafHash H key value).map ofFr := by
  have mapped := wordHash_ofFr H [key, value, 1]
  rwa [List.map_cons, List.map_cons, List.map_cons, List.map_nil, ofFr_one] at mapped

theorem joinHash_ofFr (right : Bool) (side child : Fr) :
    joinHash (wordHash H) right (ofFr side) (ofFr child) = (joinHash H right side child).map ofFr := by
  cases right
  · exact wordHash_ofFr H [child, side]
  · exact wordHash_ofFr H [side, child]

theorem foldUp_ofFr (key : Fr) (i : Nat) (siblings : List Fr) (slot : Fr) :
    foldUp (wordHash H) (ofFr key) i (siblings.map ofFr) (ofFr slot) =
      (foldUp H key i siblings slot).map ofFr := by
  induction siblings generalizing i with
  | nil => rfl
  | cons sibling rest ih =>
      simp only [List.map_cons, foldUp, ih, bit_ofFr]
      cases foldUp H key (i + 1) rest slot with
      | none => rfl
      | some child => exact joinHash_ofFr _ _ _

theorem pushDown_ofFr (key oldKey new old : Fr) (levels i : Nat) :
    pushDown (wordHash H) (ofFr key) (ofFr oldKey) (ofFr new) (ofFr old) levels i =
      (pushDown H key oldKey new old levels i).map ofFr := by
  induction levels generalizing i with
  | zero => rfl
  | succ levels ih =>
      simp only [pushDown, ih, bit_ofFr]
      by_cases shared : bit key i = bit oldKey i
      · simp only [shared, if_true]
        cases pushDown H key oldKey new old levels (i + 1) with
        | none => rfl
        | some below =>
            have joined := joinHash_ofFr (H := H) (bit oldKey i) 0 below
            rwa [ofFr_zero] at joined
      · simp only [shared, if_false]
        exact joinHash_ofFr _ _ _

theorem slotLevel_ofFr (siblings : List Fr) : slotLevel (siblings.map ofFr) = slotLevel siblings := by
  induction siblings with
  | nil => rfl
  | cons sibling rest ih => simp only [List.map_cons, slotLevel, ih, ofFr_eq_zero]

def openingOfFr (opening : Opening Fr) : Opening Word :=
  { siblings := opening.siblings.map ofFr, isOld0 := opening.isOld0, oldKey := ofFr opening.oldKey,
    oldValue := ofFr opening.oldValue }

variable {opening : Opening Fr}

theorem rootOf_ofFr (opening : Opening Fr) (key slot : Fr) :
    (openingOfFr opening).rootOf (wordHash H) (ofFr key) (ofFr slot) =
    (opening.rootOf H key slot).map ofFr := by
  simp only [Opening.rootOf, Opening.level, openingOfFr, slotLevel_ofFr, ← List.map_take]
  exact foldUp_ofFr _ _ _ _

theorem bind_rootOf_ofFr {slot : Option Fr} {key root : Fr}
    (folded : slot.bind (opening.rootOf H key) = some root) :
    (slot.map ofFr).bind ((openingOfFr opening).rootOf (wordHash H) (ofFr key)) = some (ofFr root) := by
  obtain ⟨x, rfl, isRoot⟩ := Option.bind_eq_some_iff.1 folded
  rw [Option.map_some, Option.bind_some, rootOf_ofFr, isRoot, Option.map_some]

theorem last_ofFr (last : opening.siblings.getLast? = some 0) :
    (openingOfFr opening).siblings.getLast? = some 0 := by
  rw [openingOfFr, List.getLast?_map, last, Option.map_some, ofFr_zero]

theorem oldSlot_ofFr (opening : Opening Fr) :
    (openingOfFr opening).oldSlot (wordHash H) = (opening.oldSlot H).map ofFr := by
  unfold Opening.oldSlot
  cases empty : opening.isOld0
  · simp only [openingOfFr, empty, Bool.false_eq_true, if_false]
    exact leafHash_ofFr _ _
  · simp only [openingOfFr, empty, if_true, Option.map_some, ofFr_zero]

theorem insertedSlot_ofFr (opening : Opening Fr) (key value : Fr) :
    (openingOfFr opening).insertedSlot (wordHash H) (ofFr key) (ofFr value) =
      (opening.insertedSlot H key value).map ofFr := by
  unfold Opening.insertedSlot
  rw [leafHash_ofFr]
  cases leafHash H key value with
  | none => rfl
  | some new =>
      cases empty : opening.isOld0
      · simp only [openingOfFr, Opening.level, empty, Option.map_some, Bool.false_eq_true, if_false,
          leafHash_ofFr, List.length_map, slotLevel_ofFr]
        cases leafHash H opening.oldKey opening.oldValue with
        | none => rfl
        | some old => exact pushDown_ofFr _ _ _ _ _ _
      · simp only [openingOfFr, empty, if_true]
        rfl

theorem inserts_ofFr {oldRoot key value newRoot : Fr}
    (inserted : opening.Inserts H oldRoot key value newRoot) :
    (openingOfFr opening).Inserts (wordHash H) (ofFr oldRoot) (ofFr key) (ofFr value) (ofFr newRoot) where
  last := last_ofFr inserted.last
  before := by
    rw [oldSlot_ofFr]
    exact bind_rootOf_ofFr inserted.before
  after := by
    rw [insertedSlot_ofFr]
    exact bind_rootOf_ofFr inserted.after

theorem updates_ofFr {oldRoot key value newRoot : Fr}
    (updated : opening.Updates H oldRoot key value newRoot) :
    (openingOfFr opening).Updates (wordHash H) (ofFr oldRoot) (ofFr key) (ofFr value) (ofFr newRoot) where
  last := last_ofFr updated.last
  same := congrArg ofFr updated.same
  before := by
    rw [show (openingOfFr opening).oldKey = ofFr opening.oldKey from rfl,
      show (openingOfFr opening).oldValue = ofFr opening.oldValue from rfl, leafHash_ofFr]
    exact bind_rootOf_ofFr updated.before
  after := by
    rw [leafHash_ofFr]
    exact bind_rootOf_ofFr updated.after

end transfer

end Mootvote
