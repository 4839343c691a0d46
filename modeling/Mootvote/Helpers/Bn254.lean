import Mathlib.Algebra.QuadraticAlgebra.Basic
import Mathlib.NumberTheory.LegendreSymbol.Basic
import Mathlib.Tactic.NormNum.Prime
import Mootvote.Shared.Lucas
import Mootvote.Smt.Node

set_option autoImplicit false

/-!
# Compressed points of BN254

A point is its `x` and which of the two `y` it has.
-/

namespace Mootvote

namespace Bn254

section fields

def fieldModulus : Nat :=
  21888242871839275222246405745257275088696311157297823662689037894645226208583

theorem prime_fieldModulus : fieldModulus.Prime := by
  have p28 : Nat.Prime 405928799 := by
    refine @Shared.prime_of_lucasTest _ 22 [2, 11, 3691, 4999] ?_ (by decide +kernel)
    norm_num
  have p34 : Nat.Prime 11465965001 := by
    refine @Shared.prime_of_lucasTest _ 3 [2, 2, 2, 5, 5, 5, 5, 7, 327599] ?_ (by decide +kernel)
    norm_num
  have p31 : Nat.Prime 1263766531 := by
    refine @Shared.prime_of_lucasTest _ 10 [2, 3, 5, 13, 911, 3557] ?_ (by decide +kernel)
    norm_num
  have p36 : Nat.Prime 35385462869 := by
    refine @Shared.prime_of_lucasTest _ 2 [2, 2, 7, 1263766531] ?_ (by decide +kernel)
    simp only [List.forall_mem_cons, p31]
    norm_num
  have p52 : Nat.Prime 2480874801745591 := by
    refine @Shared.prime_of_lucasTest _ 6 [2, 3, 3, 5, 19, 41, 35385462869] ?_ (by decide +kernel)
    simp only [List.forall_mem_cons, p36]
    norm_num
  have p28' : Nat.Prime 173171039 := by
    refine @Shared.prime_of_lucasTest _ 13 [2, 73, 89, 13327] ?_ (by decide +kernel)
    norm_num
  have p134 : Nat.Prime 13427688667394608761327070753331941386769 := by
    refine @Shared.prime_of_lucasTest _ 17
      [2, 2, 2, 2, 3, 7, 11, 1853641, 4562087, 173171039, 2480874801745591] ?_ (by decide +kernel)
    simp only [List.forall_mem_cons, p28', p52]
    norm_num
  refine @Shared.prime_of_lucasTest _ 3 [2, 3, 3, 13, 29, 67, 229, 311, 983, 11003, 405928799, 11465965001,
    13427688667394608761327070753331941386769] ?_ (by decide +kernel)
  simp only [List.forall_mem_cons, p28, p34, p134]
  norm_num

instance : Fact fieldModulus.Prime := ⟨prime_fieldModulus⟩

theorem prime_scalarModulus : scalarModulus.Prime := by
  have p28 : Nat.Prime 405928799 := by
    refine @Shared.prime_of_lucasTest _ 22 [2, 11, 3691, 4999] ?_ (by decide +kernel)
    norm_num
  have p33 : Nat.Prime 12048837557 := by
    refine @Shared.prime_of_lucasTest _ 2 [2, 2, 7, 7, 661, 93001] ?_ (by decide +kernel)
    norm_num
  have p42 : Nat.Prime 5156902474397 := by
    refine @Shared.prime_of_lucasTest _ 2 [2, 2, 107, 12048837557] ?_ (by decide +kernel)
    simp only [List.forall_mem_cons, p33]
    norm_num
  have p50 : Nat.Prime 1670836401704629 := by
    refine @Shared.prime_of_lucasTest _ 2 [2, 2, 3, 3, 3, 3, 5156902474397] ?_ (by decide +kernel)
    simp only [List.forall_mem_cons, p42]
    norm_num
  have p29 : Nat.Prime 639533339 := by
    refine @Shared.prime_of_lucasTest _ 2 [2, 229, 853, 1637] ?_ (by decide +kernel)
    norm_num
  have p55 : Nat.Prime 65865678001877903 := by
    refine @Shared.prime_of_lucasTest _ 5 [2, 83, 379, 1637, 639533339] ?_ (by decide +kernel)
    simp only [List.forall_mem_cons, p29]
    norm_num
  have p93 : Nat.Prime 13818364434197438864469338081 := by
    refine @Shared.prime_of_lucasTest _ 3 [2, 2, 2, 2, 2, 5, 823, 1593227, 65865678001877903] ?_ (by decide +kernel)
    simp only [List.forall_mem_cons, p55]
    norm_num
  refine @Shared.prime_of_lucasTest _ 5 (List.replicate 28 2 ++ [3, 3, 13, 29, 983, 11003, 237073, 405928799,
    1670836401704629, 13818364434197438864469338081]) ?_ (by decide +kernel)
  simp only [List.forall_mem_append, List.forall_mem_cons, List.forall_mem_replicate, p28, p50, p93]
  norm_num

abbrev Fq := ZMod fieldModulus

instance (n : Nat) : OfNat Fq (n + 2) := ⟨Nat.cast (OfNat.ofNat (n + 2))⟩

abbrev Fq2 := QuadraticAlgebra Fq (-1) 0

instance : Fact (∀ r : Fq, r ^ 2 ≠ -1 + 0 * r) where
  out r square := by
    have isSquare : IsSquare (-1 : Fq) := ⟨r, by rw [← pow_two, square, zero_mul, add_zero]⟩
    exact ZMod.exists_sq_eq_neg_one_iff.1 isSquare (by decide +kernel)

end fields

section points

@[ext] structure G1 where
  x : Fq
  y : Fq
  onCurve : y ^ 2 = x ^ 3 + 3

def xi : Fq2 := ⟨9, 1⟩

@[ext] structure G2 where
  x : Fq2
  y : Fq2
  onTwist : xi * (y ^ 2 - x ^ 3) = 3

instance : Neg G1 where
  neg P := ⟨P.x, -P.y, by rw [neg_sq, P.onCurve]⟩

/-- Whether `y` is the larger one of `y` and `-y`. -/
def larger (y : Fq) : Bool := (-y).val < y.val

/-- The coefficient of `u` counts first. -/
def larger2 (y : Fq2) : Bool := if y.im ≠ -y.im then larger y.im else larger y.re

theorem larger_eq_neg {y : Fq} (same : larger y = larger (-y)) : y = -y := by
  simp only [larger, neg_neg, decide_eq_decide] at same
  exact ZMod.val_injective _ (by omega)

theorem eq_of_larger {y y' : Fq} (squares : y ^ 2 = y' ^ 2) (same : larger y = larger y') : y = y' := by
  rcases sq_eq_sq_iff_eq_or_eq_neg.1 squares with equal | rfl
  · exact equal
  · exact (larger_eq_neg same.symm).symm

theorem eq_of_larger2 {y y' : Fq2} (squares : y ^ 2 = y' ^ 2) (same : larger2 y = larger2 y') : y = y' := by
  rcases sq_eq_sq_iff_eq_or_eq_neg.1 squares with equal | rfl
  · exact equal
  · have im : y'.im = -y'.im := by
      by_contra other
      simp only [larger2, QuadraticAlgebra.im_neg, neg_neg] at same
      rw [if_pos (Ne.symm other), if_pos other] at same
      exact other (larger_eq_neg same.symm)
    have re : y'.re = -y'.re := by
      simp only [larger2, QuadraticAlgebra.im_neg, QuadraticAlgebra.re_neg, neg_neg] at same
      rw [if_neg (not_not.2 im.symm), if_neg (not_not.2 im)] at same
      exact larger_eq_neg same.symm
    exact QuadraticAlgebra.ext re.symm im.symm

end points

section format

/-- The big-endian compressed format: `x`, with the top bit set for the larger `y`. -/
def solanaG1 (P : G1) : List UInt8 := bytesBE 32 (P.x.val + if larger P.y then 2 ^ 255 else 0)

/-- The coefficient of `u` comes first, with the top bit. -/
def solanaG2 (P : G2) : List UInt8 :=
  bytesBE 32 (P.x.im.val + if larger2 P.y then 2 ^ 255 else 0) ++ bytesBE 32 P.x.re.val

theorem val_lt (x : Fq) : x.val < 2 ^ 254 := by
  have below := ZMod.val_lt x
  have bound : fieldModulus < 2 ^ 254 := by decide
  omega

-- The top bit and the bits of the integer are apart.
theorem signed_inj {a b : Nat} {s t : Bool} (left : a < 2 ^ 254) (right : b < 2 ^ 254) :
    bytesBE 32 (a + if s then 2 ^ 255 else 0) = bytesBE 32 (b + if t then 2 ^ 255 else 0) ↔
    a = b ∧ s = t := by
  rw [bytesBE_inj (by split <;> omega) (by split <;> omega)]
  cases s <;> cases t <;> simp <;> omega

theorem solanaG1_injective : Function.Injective solanaG1 := by
  intro P P' same
  obtain ⟨xs, signs⟩ := (signed_inj (val_lt P.x) (val_lt P'.x)).1 same
  have x : P.x = P'.x := ZMod.val_injective _ xs
  exact G1.ext x (eq_of_larger (by rw [P.onCurve, P'.onCurve, x]) signs)

theorem solanaG2_injective : Function.Injective solanaG2 := by
  intro P P' same
  obtain ⟨first, second⟩ := List.append_inj same (by rw [length_bytesBE, length_bytesBE])
  obtain ⟨ims, signs⟩ := (signed_inj (val_lt P.x.im) (val_lt P'.x.im)).1 first
  have re_lt (x : Fq) : x.val < 256 ^ 32 := (val_lt x).trans (by decide)
  have res := (bytesBE_inj (re_lt P.x.re) (re_lt P'.x.re)).1 second
  have x : P.x = P'.x := QuadraticAlgebra.ext (ZMod.val_injective _ res) (ZMod.val_injective _ ims)
  have unit : xi ≠ 0 := fun zero => one_ne_zero (congrArg QuadraticAlgebra.im zero)
  have squares : P.y ^ 2 - P.x ^ 3 = P'.y ^ 2 - P'.x ^ 3 :=
    mul_left_cancel₀ unit (P.onTwist.trans P'.onTwist.symm)
  rw [x, sub_left_inj] at squares
  exact G2.ext x (eq_of_larger2 squares signs)

open Classical in
noncomputable def decompress {G : Type} (format : G → List UInt8) (bytes : List UInt8) : Option G :=
  if found : ∃ P, format P = bytes then some found.choose else none

theorem decompress_format {G : Type} {format : G → List UInt8}
    (injective : Function.Injective format) (P : G) :
    decompress format (format P) = some P := by
  have found : ∃ P', format P' = format P := ⟨P, rfl⟩
  rw [decompress, dif_pos found, injective found.choose_spec]

end format

end Bn254

end Mootvote
