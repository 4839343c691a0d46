import Mathlib.GroupTheory.OrderOfElement
import Mathlib.Data.ZMod.Basic
import Mathlib.Data.Fin.VecNotation
import Mathlib.Tactic.FinCases
import Mootvote.Circom.Gadgets

set_option autoImplicit false

/-!
# The vote circuit and its nullifier

Point signals are elements of a group that contains the prime-order subgroup of Baby Jubjub; a
circuit sees their coordinates.
-/

namespace Mootvote

open Shared SparseMerkle

variable {H : IdealHash Fr} {P : Type} [AddCommGroup P] {depth : Nat}

def subgroupOrder : Nat := 2736030358979909402780800718157159386076813972158567259200215660948447373041

def baseX : Fr := 5299619240641551281634865583518297030282874472190772894086521144482721001553

def baseY : Fr := 16950150798460657717958625567821834550301663161624707787222815936182638968203

/-- The curve's group law, its base point and the coordinates of its points. -/
structure BabyJub (P : Type) [AddCommGroup P] where
  coords : P → Fr × Fr
  injective : Function.Injective coords
  base8 : P
  coords_base8 : coords base8 = (baseX, baseY)
  order : addOrderOf base8 = subgroupOrder

/-- circomlib's `Num2Bits(n)`, the bits read as the number they spell. -/
structure Num2Bits (n : Nat) (x : Fr) (bits : Nat) : Prop where
  fits : bits < 2 ^ n
  sum : (bits : Fr) = x

def compConstant (ct bits : Nat) : Fr := if ct < bits then 1 else 0

structure EdDSAPoseidonVerifier (P : Type) where
  publicKey : P
  signatureScalar : Fr
  signaturePoint : P
  messageHash : Fr
  computedNum2Bits : Nat
  computedH : Fr

namespace EdDSAPoseidonVerifier

variable (v : EdDSAPoseidonVerifier P) (C : BabyJub P)

/-- The bits with bit 253 set to zero. -/
def computedCompConstantIn : Nat := v.computedNum2Bits % 2 ^ 253

def computedCompConstant : Fr := compConstant (subgroupOrder - 1) v.computedCompConstantIn

def computedDouble1 : P := v.publicKey + v.publicKey

def computedDouble2 : P := v.computedDouble1 + v.computedDouble1

def computedDouble3 : P := v.computedDouble2 + v.computedDouble2

def computedAddRight : P := v.signaturePoint + v.computedH.val • v.computedDouble3

def computedEscalarMulFix : P := v.computedNum2Bits • C.base8

def computedIsRightValid : Fr :=
  isEqual (C.coords (v.computedEscalarMulFix C)).1 (C.coords v.computedAddRight).1

def computedIsLeftValid : Fr :=
  isEqual (C.coords (v.computedEscalarMulFix C)).2 (C.coords v.computedAddRight).2

def computedIsLeftRightValid : Fr := isEqual (v.computedIsRightValid C + v.computedIsLeftValid C) 2

def computedIsAxEqual : Fr := isEqual (isZero (C.coords v.publicKey).1) 0

def isValid : Fr :=
  isEqual (v.computedIsLeftRightValid C + v.computedIsAxEqual C + isZero v.computedCompConstant) 3

structure Constraints (H : IdealHash Fr) : Prop where
  computedNum2Bits : Num2Bits 254 v.signatureScalar v.computedNum2Bits
  computedH : H.hash [(C.coords v.signaturePoint).1, (C.coords v.signaturePoint).2, (C.coords v.publicKey).1,
    (C.coords v.publicKey).2, v.messageHash] = some v.computedH

variable {v C}

theorem add_eq_two {a b : Fr} (left : Boolean a) (right : Boolean b) (sum : a + b = 2) : a = 1 ∧ b = 1 := by
  rcases left with rfl | rfl <;> rcases right with rfl | rfl
  · exact absurd sum (by decide)
  · exact absurd sum (by decide)
  · exact absurd sum (by decide)
  · exact ⟨rfl, rfl⟩

theorem add_eq_three {a b c : Fr} (first : Boolean a) (second : Boolean b) (third : Boolean c)
    (sum : a + b + c = 3) : a = 1 ∧ b = 1 ∧ c = 1 := by
  rcases first with rfl | rfl <;> rcases second with rfl | rfl <;> rcases third with rfl | rfl
  case inr.inr.inr => exact ⟨rfl, rfl, rfl⟩
  all_goals exact absurd sum (by decide)

theorem isZero_boolean (x : Fr) : Boolean (isZero x) := by
  unfold isZero
  split_ifs
  · exact .inr rfl
  · exact .inl rfl

/-- A valid signature satisfies the verification equation with a scalar below the subgroup order, up to bit 253. -/
theorem valid (accepted : v.isValid C = 1) :
    v.computedNum2Bits • C.base8 = v.computedAddRight ∧ v.computedNum2Bits % 2 ^ 253 < subgroupOrder := by
  obtain ⟨equation, _, range⟩ := add_eq_three (isEqual_boolean _ _) (isEqual_boolean _ _) (isZero_boolean _)
    (isEqual_eq_one.1 accepted)
  obtain ⟨x, y⟩ := add_eq_two (isEqual_boolean _ _) (isEqual_boolean _ _) (isEqual_eq_one.1 equation)
  refine ⟨C.injective (Prod.ext (isEqual_eq_one.1 x) (isEqual_eq_one.1 y)), ?_⟩
  by_contra above
  have positive : 0 < subgroupOrder := by decide
  have compared : v.computedCompConstant = 1 := by
    rw [computedCompConstant, compConstant, computedCompConstantIn, if_pos (by omega)]
  rw [compared] at range
  exact absurd range (by decide)

theorem val_signatureScalar (constraints : v.Constraints C H) (accepted : v.isValid C = 1) :
    v.signatureScalar.val = v.computedNum2Bits := by
  have range := (valid accepted).2
  have fits := constraints.computedNum2Bits.fits
  have orders : 2 ^ 253 + subgroupOrder < scalarModulus := by decide
  rw [← constraints.computedNum2Bits.sum, ZMod.val_natCast, Nat.mod_eq_of_lt (by omega)]

end EdDSAPoseidonVerifier

theorem scalar_unique {C : BabyJub P} {n n' : Nat} (fits : n < 2 ^ 254) (fits' : n' < 2 ^ 254)
    (range : n % 2 ^ 253 < subgroupOrder) (range' : n' % 2 ^ 253 < subgroupOrder)
    (bit : n.testBit 253 = n'.testBit 253) (same : n • C.base8 = n' • C.base8) : n = n' := by
  have congruent : n ≡ n' [MOD subgroupOrder] := by
    rw [← C.order]
    exact (nsmul_eq_nsmul_iff_modEq).1 same
  have top : n / 2 ^ 253 = n' / 2 ^ 253 := by
    rw [Nat.testBit_eq_decide_div_mod_eq, Nat.testBit_eq_decide_div_mod_eq, decide_eq_decide] at bit
    omega
  have low : n % 2 ^ 253 ≡ n' % 2 ^ 253 [MOD subgroupOrder] := by
    have split := Nat.div_add_mod n (2 ^ 253)
    have split' := Nat.div_add_mod n' (2 ^ 253)
    rw [← split, ← split', top] at congruent
    exact Nat.ModEq.add_left_cancel' _ congruent
  have equal : n % 2 ^ 253 = n' % 2 ^ 253 := by
    unfold Nat.ModEq at low
    rwa [Nat.mod_eq_of_lt range, Nat.mod_eq_of_lt range'] at low
  rw [← Nat.div_add_mod n (2 ^ 253), ← Nat.div_add_mod n' (2 ^ 253), top, equal]

/-- circomlib's `MultiMux1(2)` on the pair and its swap. -/
def muxSwap (x y s : Fr) : List Fr := [(y - x) * s + x, (x - y) * s + y]

structure MerkleTreeInclusionProof (depth : Nat) where
  leaf : Fr
  pathIndices : Fin depth → Fr
  pathElements : Fin depth → Fr
  level : Fin (depth + 1) → Fr

structure MerkleTreeInclusionProof.Constraints (m : MerkleTreeInclusionProof depth) (H : IdealHash Fr)
    (root : Fr) : Prop where
  leaf : m.level 0 = m.leaf
  binary : ∀ i, m.pathIndices i * (1 - m.pathIndices i) = 0
  level : ∀ i, H.hash (muxSwap (m.level i.castSucc) (m.pathElements i) (m.pathIndices i)) =
    some (m.level i.succ)
  root : m.level (Fin.last depth) = root

def platformName : Fr := 5579801008792368229

structure Vote (P : Type) (depth : Nat) where
  censusRoot : Fr
  pollId : Fr
  nChoices : Fr
  tallierPk : P
  relayerId : Fr
  msgHash : Fr
  relayerNuHash : Fr
  voterPk : P
  path : Fin depth → Fr
  pathPos : Fin depth → Fr
  choice : Fr
  revotingKeyNew : Fr
  revotingKeyOld : Fr
  sigR : P
  sigS : Fr
  ephSk : Fr
  nonce : Fr
  ciphertext : Fin ctLen → Fr
  voterLeaf : Fr
  level : Fin (depth + 1) → Fr
  signedHash : Fr
  sigBits : Nat
  sigChallenge : Fr
  sigHash : Fr
  nu : Fr
  ephSkBits : Nat
  plaintext : Fin limbs → Fr
  decrypted : Fin pad → Fr
  relayerNu : Fr
  relayerNuHashRaw : Fr

namespace Vote

variable (w : Vote P depth) (C : BabyJub P)

def inclusion : MerkleTreeInclusionProof depth :=
  { leaf := w.voterLeaf, pathIndices := w.pathPos, pathElements := w.path, level := w.level }

def signature : EdDSAPoseidonVerifier P :=
  { publicKey := w.voterPk, signatureScalar := w.sigS, signaturePoint := w.sigR, messageHash := w.signedHash,
    computedNum2Bits := w.sigBits, computedH := w.sigChallenge }

def ephPk : P := w.ephSkBits • C.base8

def sharedKey : P := w.ephSkBits • w.tallierPk

def message : Message := { ephPk := C.coords (w.ephPk C), nonce := w.nonce, ciphertext := w.ciphertext }

structure Constraints (G : Gadgets H) : Prop where
  voterLeaf : H.hash [(C.coords w.voterPk).1, (C.coords w.voterPk).2] = some w.voterLeaf
  inclusion : w.inclusion.Constraints H w.censusRoot
  signedHash : H.hash [platformName, w.pollId] = some w.signedHash
  signature : w.signature.Constraints C H
  sigValid : w.signature.isValid C = 1
  sigHash : H.hash [w.sigS, (C.coords w.sigR).1, (C.coords w.sigR).2] = some w.sigHash
  revotingKeyNewNonzero : isZero w.revotingKeyNew = 0
  revotingKeyNewFresh : isEqual w.revotingKeyNew w.revotingKeyOld = 0
  nu : H.hash [w.sigHash] = some w.nu
  -- LessEqThan(16) compares with nChoices + 1.
  inRange : LessThan 16 w.choice (w.nChoices + 1) 1
  ephSkBits : Num2Bits 253 w.ephSk w.ephSkBits
  plaintextNu : w.plaintext 0 = w.nu
  plaintextChoice : w.plaintext 1 = w.choice
  plaintextOld : H.hash [w.revotingKeyOld] = some (w.plaintext 2)
  plaintextNew : H.hash [w.revotingKeyNew] = some (w.plaintext 3)
  decrypt : G.poseidonDecrypt (C.coords w.sharedKey) w.nonce w.ciphertext w.decrypted
  decrypted : ∀ i : Fin limbs, w.decrypted (i.castLE (by decide)) = w.plaintext i
  msgHash : H.hash (w.message C).preimage = some w.msgHash
  relayerNu : H.hash [w.sigHash, w.relayerId] = some w.relayerNu
  relayerNuHashRaw : H.hash [w.relayerNu, w.msgHash] = some w.relayerNuHashRaw
  relayerNuHash : w.relayerNuHash = w.relayerNuHashRaw * (1 - isZero w.relayerId)

def publicSignals : List Fr :=
  [w.msgHash, w.relayerNuHash, w.censusRoot, w.pollId, w.nChoices, (C.coords w.tallierPk).1,
    (C.coords w.tallierPk).2, w.relayerId]

variable {w C} {w' : Vote P depth} {G : Gadgets H}

theorem Constraints.nu_eq_iff (left : w.Constraints C G) (right : w'.Constraints C G) :
    w.nu = w'.nu ↔ w.sigS = w'.sigS ∧ w.sigR = w'.sigR := by
  constructor
  · intro same
    have hashes := left.nu
    rw [same] at hashes
    have sigHash := H.injective hashes right.nu
    simp only [List.cons.injEq, and_true] at sigHash
    have signature := left.sigHash
    rw [sigHash] at signature
    have parts := H.injective signature right.sigHash
    simp only [List.cons.injEq, and_true] at parts
    exact ⟨parts.1, C.injective (Prod.ext parts.2.1 parts.2.2)⟩
  · rintro ⟨scalar, point⟩
    have sigHash := left.sigHash
    rw [scalar, point, right.sigHash, Option.some.injEq] at sigHash
    have nu := left.nu
    rw [← sigHash, right.nu, Option.some.injEq] at nu
    exact nu.symm

theorem Constraints.sigS_unique (left : w.Constraints C G) (right : w'.Constraints C G)
    (voter : w.voterPk = w'.voterPk) (poll : w.pollId = w'.pollId) (point : w.sigR = w'.sigR)
    (bit : w.sigS.val.testBit 253 = w'.sigS.val.testBit 253) : w.sigS = w'.sigS := by
  obtain ⟨equation, range⟩ := EdDSAPoseidonVerifier.valid left.sigValid
  obtain ⟨equation', range'⟩ := EdDSAPoseidonVerifier.valid right.sigValid
  have signed : w.signedHash = w'.signedHash := by
    have hashed := left.signedHash
    rw [poll, right.signedHash, Option.some.injEq] at hashed
    exact hashed.symm
  have challenge : w.sigChallenge = w'.sigChallenge := by
    have hashed := left.signature.computedH
    simp only [Vote.signature, voter, point, signed] at hashed
    exact Option.some.inj (hashed.symm.trans right.signature.computedH)
  have sums : w.signature.computedAddRight = w'.signature.computedAddRight := by
    simp only [EdDSAPoseidonVerifier.computedAddRight, EdDSAPoseidonVerifier.computedDouble3,
      EdDSAPoseidonVerifier.computedDouble2, EdDSAPoseidonVerifier.computedDouble1,
        Vote.signature, voter, point, challenge]
  have scalar := EdDSAPoseidonVerifier.val_signatureScalar left.signature left.sigValid
  have scalar' := EdDSAPoseidonVerifier.val_signatureScalar right.signature right.sigValid
  rw [show w.signature.signatureScalar = w.sigS from rfl] at scalar
  rw [show w'.signature.signatureScalar = w'.sigS from rfl] at scalar'
  rw [scalar, scalar'] at bit
  apply ZMod.val_injective
  rw [scalar, scalar']
  exact scalar_unique left.signature.computedNum2Bits.fits right.signature.computedNum2Bits.fits
    range range' bit
    (equation.trans (sums.trans equation'.symm))

/-- Two votes of one member in one poll share the nullifier exactly when they share the signature point and
bit 253 of the signature scalar. -/
theorem nullifier_unique_iff (left : w.Constraints C G) (right : w'.Constraints C G)
    (voter : w.voterPk = w'.voterPk) (poll : w.pollId = w'.pollId) :
    w.plaintext 0 = w'.plaintext 0 ↔
      w.sigR = w'.sigR ∧ w.sigS.val.testBit 253 = w'.sigS.val.testBit 253 := by
  rw [left.plaintextNu, right.plaintextNu, left.nu_eq_iff right]
  constructor
  · rintro ⟨scalar, point⟩
    exact ⟨point, by rw [scalar]⟩
  · rintro ⟨point, bit⟩
    exact ⟨left.sigS_unique right voter poll point bit, point⟩

end Vote

namespace TwoSignatures

/-- The prime-order group itself, with the base point at one. -/
def curve : BabyJub (ZMod subgroupOrder) where
  coords x := if x = 1 then (baseX, baseY) else ((x.val : Fr), 0)
  injective := by
    intro x y same
    have order : subgroupOrder < scalarModulus := by decide
    have baseY_ne : baseY ≠ 0 := by decide
    have : NeZero subgroupOrder := ⟨by decide⟩
    dsimp only at same
    split_ifs at same with left right right
    · rw [left, right]
    · exact absurd (congrArg Prod.snd same) baseY_ne
    · exact absurd (congrArg Prod.snd same).symm baseY_ne
    · have vals := congrArg ZMod.val (congrArg Prod.fst same)
      have below := ZMod.val_lt x
      have below' := ZMod.val_lt y
      rw [ZMod.val_natCast, ZMod.val_natCast, Nat.mod_eq_of_lt (by omega),
        Nat.mod_eq_of_lt (by omega)] at vals
      exact ZMod.val_injective _ vals
  base8 := 1
  coords_base8 := if_pos rfl
  order := ZMod.addOrderOf_one subgroupOrder

def table : List (List Fr × Fr) :=
  [([platformName, 9], 20), ([2, 0, baseX, baseY, 20], 1), ([3, 0, baseX, baseY, 20], 2),
    ([10, 2, 0], 21), ([19, 3, 0], 22), ([21], 23), ([22], 24), ([0], 25), ([6], 26),
    ([baseX, baseY, 0, 23, 1, 25, 26, 0, 0, 0], 27), ([baseX, baseY, 0, 24, 1, 25, 26, 0, 0, 0], 28),
    ([21, 0], 29), ([22, 0], 30), ([29, 27], 31), ([30, 28], 32), ([baseX, baseY], 400)] ++
  (List.range 40).map fun i => ([((400 + i : Nat) : Fr), 0], ((401 + i : Nat) : Fr))

def hash : IdealHash Fr := .ofTable table (by decide +kernel) (by decide +kernel)

def gadgets : Gadgets hash :=
  .documented hash (fun _ pk => pk) fun _ _ ciphertext decrypted => ∀ i, decrypted i = ciphertext i.castSucc

def first : Vote (ZMod subgroupOrder) 40 where
  censusRoot := 440
  pollId := 9
  nChoices := 2
  tallierPk := 1
  relayerId := 0
  msgHash := 27
  relayerNuHash := 0
  voterPk := 1
  path := fun _ => 0
  pathPos := fun _ => 0
  choice := 1
  revotingKeyNew := 6
  revotingKeyOld := 0
  sigR := 2
  sigS := 10
  ephSk := 1
  nonce := 0
  ciphertext := ![23, 1, 25, 26, 0, 0, 0]
  voterLeaf := 400
  level := fun i => ((400 + i.val : Nat) : Fr)
  signedHash := 20
  sigBits := 10
  sigChallenge := 1
  sigHash := 21
  nu := 23
  ephSkBits := 1
  plaintext := ![23, 1, 25, 26]
  decrypted := ![23, 1, 25, 26, 0, 0]
  relayerNu := 29
  relayerNuHashRaw := 31

def second : Vote (ZMod subgroupOrder) 40 :=
  { first with
    msgHash := 28, sigR := 3, sigS := 19, ciphertext := ![24, 1, 25, 26, 0, 0, 0], sigBits := 19,
      sigChallenge := 2
    sigHash := 22, nu := 24, plaintext := ![24, 1, 25, 26], decrypted := ![24, 1, 25, 26, 0, 0],
      relayerNu := 30
    relayerNuHashRaw := 32 }

theorem first_inclusion : first.inclusion.Constraints hash first.censusRoot where
  leaf := by decide +kernel
  binary := by decide +kernel
  level := by decide +kernel
  root := by decide +kernel

theorem first_constraints : first.Constraints curve gadgets where
  voterLeaf := by decide +kernel
  inclusion := first_inclusion
  signedHash := by decide +kernel
  signature := ⟨⟨by decide +kernel, by decide +kernel⟩, by decide +kernel⟩
  sigValid := by decide +kernel
  sigHash := by decide +kernel
  revotingKeyNewNonzero := by decide +kernel
  revotingKeyNewFresh := by decide +kernel
  nu := by decide +kernel
  inRange := ⟨by decide +kernel, by decide +kernel⟩
  ephSkBits := ⟨by decide +kernel, by decide +kernel⟩
  plaintextNu := rfl
  plaintextChoice := rfl
  plaintextOld := by decide +kernel
  plaintextNew := by decide +kernel
  decrypt := by
    change ∀ i : Fin pad, _ = _
    decide +kernel
  decrypted := by decide +kernel
  msgHash := by decide +kernel
  relayerNu := by decide +kernel
  relayerNuHashRaw := by decide +kernel
  relayerNuHash := by decide +kernel

theorem second_constraints : second.Constraints curve gadgets where
  voterLeaf := first_constraints.voterLeaf
  inclusion := first_inclusion
  signedHash := first_constraints.signedHash
  signature := ⟨⟨by decide +kernel, by decide +kernel⟩, by decide +kernel⟩
  sigValid := by decide +kernel
  sigHash := by decide +kernel
  revotingKeyNewNonzero := first_constraints.revotingKeyNewNonzero
  revotingKeyNewFresh := first_constraints.revotingKeyNewFresh
  nu := by decide +kernel
  inRange := first_constraints.inRange
  ephSkBits := first_constraints.ephSkBits
  plaintextNu := rfl
  plaintextChoice := rfl
  plaintextOld := first_constraints.plaintextOld
  plaintextNew := first_constraints.plaintextNew
  decrypt := by
    change ∀ i : Fin pad, _ = _
    decide +kernel
  decrypted := by decide +kernel
  msgHash := by decide +kernel
  relayerNu := by decide +kernel
  relayerNuHashRaw := by decide +kernel
  relayerNuHash := by decide +kernel

theorem nullifier_unique_iff_points : first.plaintext 0 = second.plaintext 0 ↔
    first.sigR = second.sigR ∧ first.sigS.val.testBit 253 = second.sigS.val.testBit 253 :=
  Vote.nullifier_unique_iff first_constraints second_constraints rfl rfl

theorem nullifier_unique_fails : ∃ (H : IdealHash Fr) (G : Gadgets H) (C : BabyJub (ZMod subgroupOrder))
    (w w' : Vote (ZMod subgroupOrder) 40), w.Constraints C G ∧ w'.Constraints C G ∧ w.voterPk = w'.voterPk ∧
      w.pollId = w'.pollId ∧ w.plaintext 0 ≠ w'.plaintext 0 :=
  ⟨hash, gadgets, curve, first, second, first_constraints, second_constraints, rfl, rfl, by decide +kernel⟩

end TwoSignatures

end Mootvote
