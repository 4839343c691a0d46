import Mathlib.Data.BitVec
import Mathlib.Data.Nat.Bitwise
import Mathlib.Data.ZMod.Basic
import Mootvote.Shared.SparseTree

set_option autoImplicit false

/-!
# Field elements, words and comparators

Circuits compute over the BN254 scalar field, programs on 32-byte big-endian words.
-/

namespace Mootvote

open SparseMerkle

def scalarModulus : Nat :=
  21888242871839275222246405745257275088548364400416034343698204186575808495617

abbrev Fr := ZMod scalarModulus

-- Numerals from two on, without a proof of their size in them.
instance (n : Nat) : OfNat Fr (n + 2) := ⟨Nat.cast (OfNat.ofNat (n + 2))⟩

instance : NeZero scalarModulus := ⟨by decide⟩

instance : Fact (1 < scalarModulus) := ⟨by decide⟩

theorem scalarModulus_gt : 2 ^ 253 < scalarModulus := by decide

theorem scalarModulus_lt : scalarModulus < 2 ^ 254 := by decide

/-- A `[u8; 32]`, read as the big-endian integer of its bytes. -/
abbrev Word := BitVec 256

instance : KeyBits Fr := ⟨fun x i => x.val.testBit i⟩

instance : KeyBits Word := ⟨fun x i => x.getLsbD i⟩

namespace Word

/-- The field element that a word encodes; words from the modulus on encode none. -/
def toFr (w : Word) : Option Fr :=
  if w.toNat < scalarModulus then some (w.toNat : Fr) else none

def ofFr (x : Fr) : Word := BitVec.ofNat 256 x.val

theorem toNat_ofFr (x : Fr) : (ofFr x).toNat = x.val := by
  have below := ZMod.val_lt x
  have bound := scalarModulus_lt
  simp only [ofFr, BitVec.toNat_ofNat]
  exact Nat.mod_eq_of_lt (by omega)

@[simp] theorem toFr_ofFr (x : Fr) : toFr (ofFr x) = some x := by
  rw [toFr, toNat_ofFr, if_pos (ZMod.val_lt x), ZMod.natCast_zmod_val]

theorem toFr_eq_some_iff {w : Word} {x : Fr} : toFr w = some x ↔ w = ofFr x := by
  constructor
  · intro decoded
    unfold toFr at decoded
    split_ifs at decoded with canonical
    cases decoded
    apply BitVec.eq_of_toNat_eq
    rw [toNat_ofFr, ZMod.val_natCast, Nat.mod_eq_of_lt canonical]
  · rintro rfl
    exact toFr_ofFr x

theorem ofFr_injective {x y : Fr} (same : ofFr x = ofFr y) : x = y := by
  have decoded := toFr_ofFr x
  rw [same, toFr_ofFr] at decoded
  exact (Option.some.inj decoded).symm

theorem bit_ofFr (x : Fr) (i : Nat) : bit (ofFr x) i = bit x i := by
  change (ofFr x).getLsbD i = x.val.testBit i
  rw [BitVec.getLsbD, toNat_ofFr]

def toFrs (ws : List Word) : Option (List Fr) := ws.mapM toFr

theorem toFrs_eq_some_iff {ws : List Word} {xs : List Fr} : toFrs ws = some xs ↔ ws = xs.map ofFr := by
  induction ws generalizing xs with
  | nil => cases xs <;> simp [toFrs]
  | cons w ws ih =>
      unfold toFrs at ih ⊢
      simp only [List.mapM_cons, Option.bind_eq_bind, Option.bind_eq_some_iff, Option.pure_def,
        Option.some.injEq]
      constructor
      · rintro ⟨x, head, rest, tail, rfl⟩
        rw [toFr_eq_some_iff.1 head, ih.1 tail, List.map_cons]
      · intro same
        cases xs with
        | nil => simp at same
        | cons x xs =>
            simp only [List.map_cons, List.cons.injEq] at same
            exact ⟨x, toFr_eq_some_iff.2 same.1, xs, ih.2 same.2, rfl⟩

end Word

/-- Selectors of a circuit are meant to be zero or one. -/
def Boolean (x : Fr) : Prop := x = 0 ∨ x = 1

instance (x : Fr) : Decidable (Boolean x) := inferInstanceAs (Decidable (_ ∨ _))

def isZero (x : Fr) : Fr := if x = 0 then 1 else 0

def isEqual (x y : Fr) : Fr := if x = y then 1 else 0

/-- circomlib's `LessThan(n)`: `x + 2^n - y` fits in `n + 1` bits, and `out` negates the top one. -/
structure LessThan (n : Nat) (x y out : Fr) : Prop where
  fits : (x + 2 ^ n - y).val < 2 ^ (n + 1)
  out_eq : out = if (x + 2 ^ n - y).val < 2 ^ n then 1 else 0

theorem LessThan.boolean {n : Nat} {x y out : Fr} (compared : LessThan n x y out) : Boolean out := by
  rw [compared.out_eq]
  split_ifs
  · exact .inr rfl
  · exact .inl rfl

theorem isEqual_boolean (x y : Fr) : Boolean (isEqual x y) := by
  unfold isEqual
  split_ifs
  · exact .inr rfl
  · exact .inl rfl

@[simp] theorem isEqual_eq_one {x y : Fr} : isEqual x y = 1 ↔ x = y := by
  unfold isEqual
  split_ifs <;> simp_all

theorem LessThan.difference {n a b : Nat} (small : n < 253) (left : a < 2 ^ n) (right : b ≤ 2 ^ n) :
    ((a : Fr) + 2 ^ n - b).val = a + 2 ^ n - b := by
  have modulus := scalarModulus_gt
  have power : 2 ^ n * 2 ≤ 2 ^ 253 := by
    rw [← Nat.pow_succ]
    exact Nat.pow_le_pow_right (by omega) (by omega)
  have cast : (a : Fr) + 2 ^ n - b = ((a + 2 ^ n - b : Nat) : Fr) := by
    rw [Nat.cast_sub (by omega), Nat.cast_add, Nat.cast_pow, Nat.cast_ofNat]
  rw [cast, ZMod.val_natCast, Nat.mod_eq_of_lt (by omega)]

theorem LessThan.sound {n a b : Nat} (small : n < 253) (left : a < 2 ^ n) (right : b ≤ 2 ^ n) {out : Fr}
    (compared : LessThan n a b out) : out = 1 ↔ a < b := by
  rw [compared.out_eq, LessThan.difference small left right]
  split_ifs with less
  · simp only [true_iff]
    omega
  · simp only [zero_ne_one, false_iff]
    omega

theorem LessThan.complete {n a b : Nat} (small : n < 253) (left : a < 2 ^ n) (right : b ≤ 2 ^ n) :
    LessThan n a b (if a < b then 1 else 0) := by
  refine ⟨?_, ?_⟩ <;> rw [LessThan.difference small left right]
  · rw [Nat.pow_succ]
    omega
  · exact if_congr (by omega) rfl rfl

end Mootvote
