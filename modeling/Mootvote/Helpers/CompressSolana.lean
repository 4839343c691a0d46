import Mootvote.Helpers.Bn254

set_option autoImplicit false

namespace Mootvote.CompressSolana

open Bn254

section code

def fp : Int := 21888242871839275222246405745257275088548364400416034343698204186575808495617

def fq : Int := 21888242871839275222246405745257275088696311157297823662689037894645226208583

def gtFp (a b : Int) : Bool := b < a

-- `((n % FP) + FP) % FP`; the remainder of a bigint has the sign of the dividend.
def posMod (n : Int) : Int := (n.tmod fp + fp).tmod fp

-- The lowest `i` bytes, written from the last one on.
def fill : Nat → Nat → List UInt8
  | 0, _ => []
  | i + 1, n => fill i (n >>> 8) ++ [UInt8.ofNat (n &&& 0xff)]

def be32 (n0 : Int) : List UInt8 := fill 32 (posMod n0).toNat

def setSign (sign : Bool) : List UInt8 → List UInt8
  | [] => []
  | b :: out => (if sign then b ||| 0x80 else b &&& 0x7f) :: out

def compressG1 (x y : Int) : List UInt8 :=
  let sign := gtFp (posMod y) ((fp - posMod y).tmod fp)
  setSign sign (be32 x)

def lexLargestFp2 (y0 y1 : Int) : Bool :=
  let ny0 := (fp - posMod y0).tmod fp
  let ny1 := (fp - posMod y1).tmod fp
  if y1 ≠ ny1 then gtFp y1 ny1 else gtFp y0 ny0

def compressG2 (x y : Fin 2 → Int) : List UInt8 :=
  let sign := lexLargestFp2 (y 1) (y 0)
  setSign sign (be32 (x 0)) ++ be32 (x 1)

def negateG1 (a : Fin 3 → Int) : Fin 3 → Int := ![a 0, fq - a 1, a 2]

/-- A proof of snarkjs; its decimal strings are integers. -/
structure Proof where
  piA : Fin 3 → Int
  piB : Fin 3 → Fin 2 → Int
  piC : Fin 3 → Int

structure CompressedProof where
  a : List UInt8
  b : List UInt8
  c : List UInt8
deriving DecidableEq

def compressProof (proof : Proof) : CompressedProof :=
  let negA := negateG1 proof.piA
  let bx := ![proof.piB 0 1, proof.piB 0 0]
  let bY := ![proof.piB 1 1, proof.piB 1 0]
  { a := compressG1 (negA 0) (negA 1)
    b := compressG2 bx bY
    c := compressG1 (proof.piC 0) (proof.piC 1) }

end code

section relayer

structure Arkworks where
  serializeG1 : G1 → List UInt8
  serializeG2 : G2 → List UInt8

/-- `compress_proof` of the relayer. -/
def Arkworks.compressProof (ark : Arkworks) (a : G1) (b : G2) (c : G1) : CompressedProof where
  a := (ark.serializeG1 (-a)).reverse
  b := (ark.serializeG2 b).reverse
  c := (ark.serializeG1 c).reverse

-- Its compressed form is little-endian, with the flag in the last byte.
structure Arkworks.LittleEndian (ark : Arkworks) : Prop where
  g1 : ∀ P, ark.serializeG1 P = (solanaG1 P).reverse
  g2 : ∀ P, ark.serializeG2 P = (solanaG2 P).reverse

end relayer

section faithful

def Proof.ofPoints (a : G1) (b : G2) (c : G1) : Proof where
  piA := ![a.x.val, a.y.val, 1]
  piB := ![![b.x.re.val, b.x.im.val], ![b.y.re.val, b.y.im.val], ![1, 0]]
  piC := ![c.x.val, c.y.val, 1]

structure Faithful (ark : Arkworks) (a : G1) (b : G2) (c : G1) : Prop where
  bytes : compressProof (.ofPoints a b c) = { a := solanaG1 (-a), b := solanaG2 b, c := solanaG1 c }
  decompressA : decompress solanaG1 (compressProof (.ofPoints a b c)).a = some (-a)
  decompressB : decompress solanaG2 (compressProof (.ofPoints a b c)).b = some b
  decompressC : decompress solanaG1 (compressProof (.ofPoints a b c)).c = some c
  relayer : compressProof (.ofPoints a b c) = ark.compressProof a b c

def Between (y : Fq) : Prop := scalarModulus < 2 * y.val ∧ 2 * y.val < fieldModulus

instance (y : Fq) : Decidable (Between y) := inferInstanceAs (Decidable (_ ∧ _))

structure SafeG1 (P : G1) : Prop where
  x : P.x.val < scalarModulus
  y : P.y.val < scalarModulus
  sign : ¬Between P.y

structure SafeG2 (P : G2) : Prop where
  re : P.x.re.val < scalarModulus
  im : P.x.im.val < scalarModulus
  sign : ¬Between P.y.im
  tie : P.y.im = 0 → ¬Between P.y.re

end faithful

section bytes

theorem posMod_natCast (n : Nat) : posMod n = (n % scalarModulus : Nat) := by
  have positive : (0 : Int) ≤ (n : Int).tmod fp := Int.tmod_nonneg _ (Int.natCast_nonneg n)
  have modulus : (scalarModulus : Int) = fp := rfl
  rw [posMod, Int.tmod_eq_emod_of_nonneg (by unfold fp at *; omega), Int.add_emod_right,
    Int.tmod_eq_emod_of_nonneg (Int.natCast_nonneg n), Int.emod_emod_of_dvd _ dvd_rfl,
      Int.natCast_emod, modulus]

theorem fill_eq (i n : Nat) : fill i n = bytesBE i n := by
  induction i generalizing n with
  | zero => rfl
  | succ i ih =>
      have low : UInt8.ofNat (n &&& 0xff) = UInt8.ofNat n := by
        apply UInt8.toNat_inj.1
        rw [UInt8.toNat_ofNat', UInt8.toNat_ofNat', Nat.and_two_pow_sub_one_eq_mod n 8]
        exact Nat.mod_mod _ _
      rw [fill, ih, low, Nat.shiftRight_eq_div_pow, bytesBE]

theorem be32_natCast (n : Nat) : be32 n = bytesBE 32 (n % scalarModulus) := by
  rw [be32, fill_eq, posMod_natCast, Int.toNat_natCast]

theorem setSign_bytesBE {v : Nat} (small : v < 2 ^ 255) (sign : Bool) :
    setSign sign (bytesBE 32 v) = bytesBE 32 (v + if sign then 2 ^ 255 else 0) := by
  have head : v / 256 ^ 31 < 128 := Nat.div_lt_of_lt_mul (by simpa using small)
  have bits : ∀ k < 128, UInt8.ofNat k ||| 0x80 = UInt8.ofNat (k + 128) ∧
      UInt8.ofNat k &&& 0x7f = UInt8.ofNat k := by decide +kernel
  have top : v + 2 ^ 255 = v + 256 ^ 31 * 128 := by norm_num
  have cons (x : Nat) : bytesBE 32 x = UInt8.ofNat (x / 256 ^ 31) :: bytesBE 31 x := bytesBE_cons
  rw [cons, cons, setSign]
  cases sign with
  | false => rw [if_neg (by decide), if_neg (by decide), (bits _ head).2, Nat.add_zero]
  | true =>
      rw [if_pos rfl, if_pos rfl, (bits _ head).1, top, bytesBE_add, Nat.add_mul_div_left _ _ (by positivity)]

end bytes

section signs

variable {n : Nat} {y : Fq}

-- The negation that the code computes.
theorem negMod_natCast (n : Nat) : (fp - posMod n).tmod fp =
    ((if n % scalarModulus = 0 then 0 else scalarModulus - n % scalarModulus : Nat) : Int) := by
  have below : n % scalarModulus < scalarModulus := Nat.mod_lt _ (by decide)
  have modulus : (scalarModulus : Int) = fp := rfl
  rw [posMod_natCast]
  split_ifs with zero
  · rw [zero, Int.natCast_zero, Int.sub_zero, Int.tmod_self]
  · rw [Nat.cast_sub below.le, ← modulus, Int.tmod_eq_of_lt (by omega) (by omega)]

/-- The sign bit of the code is set for the upper half of the wrong modulus. -/
theorem sign_natCast (n : Nat) :
    gtFp (posMod n) ((fp - posMod n).tmod fp) = decide (scalarModulus < 2 * (n % scalarModulus)) := by
  rw [gtFp, negMod_natCast, posMod_natCast, decide_eq_decide]
  split_ifs <;> omega

theorem val_neg (y : Fq) : (-y).val = if y.val = 0 then 0 else fieldModulus - y.val := by
  rw [ZMod.neg_val]
  simp only [ZMod.val_eq_zero]

theorem larger_eq (y : Fq) : larger y = decide (fieldModulus < 2 * y.val) := by
  have below := ZMod.val_lt y
  rw [larger, val_neg, decide_eq_decide]
  split_ifs <;> omega

theorem moduli : scalarModulus < fieldModulus ∧ fieldModulus < scalarModulus + scalarModulus / 4 := by
  decide

theorem sign_agrees_iff (y : Fq) :
    decide (scalarModulus < 2 * (y.val % scalarModulus)) = larger y ↔
      y.val < scalarModulus ∧ ¬Between y := by
  have below := ZMod.val_lt y
  have close := moduli
  have odd : fieldModulus % 2 = 1 := by decide
  rw [larger_eq, decide_eq_decide, Between]
  rcases Nat.lt_or_ge y.val scalarModulus with small | large
  · rw [Nat.mod_eq_of_lt small]
    omega
  · rw [Nat.mod_eq_sub_mod large, Nat.mod_eq_of_lt (by omega)]
    omega

theorem eq_neg_iff (y : Fq) : y = -y ↔ y = 0 := by
  have below := ZMod.val_lt y
  have odd : fieldModulus % 2 = 1 := by decide
  refine ⟨fun same => ?_, fun zero => by rw [zero, neg_zero]⟩
  have values := congrArg ZMod.val same
  rw [val_neg] at values
  rw [← ZMod.val_eq_zero]
  split_ifs at values <;> omega

section unreduced

-- The code compares the limbs of `y` themselves with their negations.
variable (y : Fq)

theorem limb_agrees_iff : gtFp y.val ((fp - posMod y.val).tmod fp) = larger y ↔ ¬Between y := by
  have below := ZMod.val_lt y
  have close := moduli
  have odd : fieldModulus % 2 = 1 := by decide
  rw [gtFp, negMod_natCast, larger_eq, decide_eq_decide, Between]
  rcases Nat.lt_or_ge y.val scalarModulus with small | large
  · rw [Nat.mod_eq_of_lt small]
    split_ifs <;> omega
  · rw [Nat.mod_eq_sub_mod large, Nat.mod_eq_of_lt (by omega)]
    split_ifs <;> omega

theorem limb_eq_neg_iff : (y.val : Int) = (fp - posMod y.val).tmod fp ↔ y = 0 := by
  have below := ZMod.val_lt y
  have close := moduli
  have odd : scalarModulus % 2 = 1 := by decide
  rw [negMod_natCast, ← ZMod.val_eq_zero]
  rcases Nat.lt_or_ge y.val scalarModulus with small | large
  · rw [Nat.mod_eq_of_lt small]
    split_ifs <;> omega
  · rw [Nat.mod_eq_sub_mod large, Nat.mod_eq_of_lt (by omega)]
    split_ifs <;> omega

end unreduced

theorem sign2_agrees_iff (y : Fq2) : lexLargestFp2 y.re.val y.im.val = larger2 y ↔
    ¬Between y.im ∧ (y.im = 0 → ¬Between y.re) := by
  simp only [lexLargestFp2, larger2, ne_eq, limb_eq_neg_iff, eq_neg_iff]
  by_cases zero : y.im = 0
  · have apart : ¬Between (0 : Fq) := by decide +kernel
    rw [if_neg (not_not.2 zero), if_neg (not_not.2 zero), limb_agrees_iff, zero]
    simp [apart]
  · rw [if_pos zero, if_pos zero, limb_agrees_iff]
    simp [zero]

end signs

section points

variable {P : G1}

theorem compressG1_eq_iff {n : Nat} (P : G1)
    (sign : decide (scalarModulus < 2 * (n % scalarModulus)) = larger P.y ↔
      P.y.val < scalarModulus ∧ ¬Between P.y) :
    compressG1 P.x.val n = solanaG1 P ↔ SafeG1 P := by
  have below : P.x.val % scalarModulus < 2 ^ 254 :=
    (Nat.mod_lt _ (by decide)).trans scalarModulus_lt
  have same : P.x.val % scalarModulus = P.x.val ↔ P.x.val < scalarModulus :=
    Nat.mod_eq_iff_lt (by decide)
  rw [compressG1, be32_natCast, sign_natCast, setSign_bytesBE (by omega), solanaG1,
    signed_inj below (val_lt P.x), sign, same]
  exact ⟨fun ⟨x, y, between⟩ => ⟨x, y, between⟩, fun ⟨x, y, between⟩ => ⟨x, y, between⟩⟩

-- `negateG1` turns `0` into the modulus; its sign bit is clear too.
theorem negated_agrees (y : Fq) :
    decide (scalarModulus < 2 * ((fieldModulus - y.val) % scalarModulus)) = larger (-y) ↔
      (-y).val < scalarModulus ∧ ¬Between (-y) := by
  by_cases zero : y.val = 0
  · have isZero : y = 0 := (ZMod.val_eq_zero y).1 zero
    subst isZero
    decide +kernel
  · have value := val_neg y
    rw [if_neg zero] at value
    rw [← value]
    exact sign_agrees_iff (-y)

theorem compressG2_eq_iff (P : G2) :
    compressG2 ![P.x.im.val, P.x.re.val] ![P.y.im.val, P.y.re.val] = solanaG2 P ↔ SafeG2 P := by
  have below (x : Fq) : x.val % scalarModulus < 2 ^ 254 := (Nat.mod_lt _ (by decide)).trans scalarModulus_lt
  have same (x : Fq) : x.val % scalarModulus = x.val ↔ x.val < scalarModulus := Nat.mod_eq_iff_lt (by decide)
  have second : bytesBE 32 (P.x.re.val % scalarModulus) = bytesBE 32 P.x.re.val ↔
    P.x.re.val < scalarModulus := by
    rw [bytesBE_inj ((below P.x.re).trans (by decide)) ((val_lt P.x.re).trans (by decide)), same]
  have code : compressG2 ![P.x.im.val, P.x.re.val] ![P.y.im.val, P.y.re.val] =
      setSign (lexLargestFp2 P.y.re.val P.y.im.val) (be32 P.x.im.val) ++ be32 P.x.re.val := rfl
  have small := below P.x.im
  rw [code, be32_natCast, be32_natCast, setSign_bytesBE (by omega), solanaG2]
  constructor
  · intro bytes
    obtain ⟨left, right⟩ := List.append_inj bytes (by rw [length_bytesBE, length_bytesBE])
    obtain ⟨im, signs⟩ := (signed_inj (below P.x.im) (val_lt P.x.im)).1 left
    obtain ⟨sign, tie⟩ := (sign2_agrees_iff P.y).1 signs
    exact ⟨second.1 right, (same P.x.im).1 im, sign, tie⟩
  · intro safe
    rw [(same P.x.im).2 safe.im, (same P.x.re).2 safe.re, (sign2_agrees_iff P.y).2 ⟨safe.sign, safe.tie⟩]

end points

/-- The compressed proof is the one that Solana and the relayer expect exactly where the scalar modulus, by
which the code reduces, does what the base field's would do. -/
theorem faithful_iff (ark : Arkworks) (littleEndian : ark.LittleEndian) (a : G1) (b : G2) (c : G1) :
    Faithful ark a b c ↔ SafeG1 (-a) ∧ SafeG2 b ∧ SafeG1 c := by
  have negated : compressG1 a.x.val (fq - a.y.val) = solanaG1 (-a) ↔ SafeG1 (-a) := by
    have natural : fq - a.y.val = ((fieldModulus - a.y.val : Nat) : Int) :=
      (Nat.cast_sub (ZMod.val_lt a.y).le).symm
    rw [natural]
    exact compressG1_eq_iff (-a) (negated_agrees a.y)
  have bytes : compressProof (.ofPoints a b c) = { a := solanaG1 (-a), b := solanaG2 b, c := solanaG1 c } ↔
      SafeG1 (-a) ∧ SafeG2 b ∧ SafeG1 c := by
    rw [← negated, ← compressG2_eq_iff, ← compressG1_eq_iff c (sign_agrees_iff c.y)]
    exact CompressedProof.mk.injEq .. ▸ Iff.rfl
  refine ⟨fun faithful => bytes.1 faithful.bytes, fun safe => ?_⟩
  have same := bytes.2 safe
  refine ⟨same, ?_, ?_, ?_, ?_⟩
  · rw [same]
    exact decompress_format solanaG1_injective (-a)
  · rw [same]
    exact decompress_format solanaG2_injective b
  · rw [same]
    exact decompress_format solanaG1_injective c
  · rw [same, Arkworks.compressProof, littleEndian.g1, littleEndian.g1, littleEndian.g2]
    simp only [List.reverse_reverse]

namespace AboveScalarModulus

def generator : G1 := ⟨1, 2, by decide +kernel⟩

def twistGenerator : G2 where
  x := ⟨10857046999023057135944570762232829481370756359578518086990519993285655852781,
    11559732032986387107991004021392285783925812861821192530917403151452391805634⟩
  y := ⟨8495653923123431417604973247489272438418190587263600148770280649306958101930,
    4082367875863433681332203403145435568316851327593401208105741076214120093531⟩
  onTwist := by decide +kernel

def above : G1 where
  x := 21888242871839275222246405745257275088548364400416034343698204186575808495619
  y := 8266872138877215743360378412454276800624950262828726648952725738991409913282
  onCurve := by decide +kernel

def arkworks : Arkworks where
  serializeG1 P := (solanaG1 P).reverse
  serializeG2 P := (solanaG2 P).reverse

-- The `x` of the third point is written as two.
theorem bytes_above : (compressProof (.ofPoints generator twistGenerator above)).c = bytesBE 32 2 := by
  decide +kernel

theorem format_above : solanaG1 above ≠ bytesBE 32 2 := by decide +kernel

theorem not_faithful_above : ¬Faithful arkworks generator twistGenerator above := by
  intro faithful
  have third : (compressProof (.ofPoints generator twistGenerator above)).c = solanaG1 above := by
    rw [faithful.bytes]
  exact format_above (third.symm.trans bytes_above)

-- The generator's own negation has its `y` from the scalar modulus on, so it is doubled.
def doubled : G1 where
  x := 1368015179489954701390400359078579693043519447331113978918064868415326638035
  y := 9918110051302171585080402603319702774565515993150576347155970296011118125764
  onCurve := by decide +kernel

theorem safe_negated : SafeG1 (-doubled) where
  x := by decide +kernel
  y := by decide +kernel
  sign := by decide +kernel

theorem safe_twist : SafeG2 twistGenerator where
  re := by decide +kernel
  im := by decide +kernel
  sign := by decide +kernel
  tie := by decide +kernel

theorem safe_generator : SafeG1 generator where
  x := by decide +kernel
  y := by decide +kernel
  sign := by decide +kernel

theorem faithful_doubled : Faithful arkworks doubled twistGenerator generator ∧
    ¬Faithful arkworks doubled twistGenerator above := by
  have writes : arkworks.LittleEndian := ⟨fun P => by rw [arkworks], fun P => by rw [arkworks]⟩
  refine ⟨(faithful_iff arkworks writes doubled twistGenerator generator).2
    ⟨safe_negated, safe_twist, safe_generator⟩, fun faithful => ?_⟩
  obtain ⟨_, _, third⟩ := (faithful_iff arkworks writes doubled twistGenerator above).1 faithful
  exact absurd third.x (by decide +kernel)

end AboveScalarModulus

end Mootvote.CompressSolana
