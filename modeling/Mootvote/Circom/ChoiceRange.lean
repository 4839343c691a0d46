import Mathlib.Tactic.Ring
import Mootvote.Circom.Vote

set_option autoImplicit false

/-!
# The range check on the choice

`LessThan` compares operands that fit in its width. Of a choice, nothing says that it does.
-/

namespace Mootvote

open Shared SparseMerkle

section window

variable {n : Nat} {x y : Fr}

theorem LessThan.one_iff : LessThan n x y 1 ↔ (x + 2 ^ n - y).val < 2 ^ n := by
  constructor
  · intro compared
    have output := compared.out_eq
    by_contra above
    rw [if_neg above] at output
    exact one_ne_zero output
  · intro below
    refine ⟨?_, by rw [if_pos below]⟩
    rw [Nat.pow_succ]
    omega

/-- Besides the smaller values, the window below `y` holds the negative ones. -/
theorem LessThan.one_cases (small : n < 253) (right : y.val ≤ 2 ^ n) :
    LessThan n x y 1 ↔ x.val < y.val ∨ ∃ k : Nat, 0 < k ∧ k + y.val ≤ 2 ^ n ∧ x = -(k : Fr) := by
  have power : 2 ^ n ≤ 2 ^ 253 := Nat.pow_le_pow_right (by decide) (by omega)
  have modulus := scalarModulus_gt
  have cast : ((2 ^ n : Nat) : Fr) = 2 ^ n := by rw [Nat.cast_pow, Nat.cast_ofNat]
  rw [LessThan.one_iff]
  constructor
  · intro below
    have sum : x + 2 ^ n = ((x + 2 ^ n - y).val : Fr) + (y.val : Fr) := by
      rw [ZMod.natCast_zmod_val, ZMod.natCast_zmod_val, sub_add_cancel]
    generalize (x + 2 ^ n - y).val = v at below sum
    by_cases wraps : 2 ^ n ≤ v + y.val
    · left
      have value : x = ((v + y.val - 2 ^ n : Nat) : Fr) := by
        rw [Nat.cast_sub wraps, Nat.cast_add, cast, ← sum, add_sub_cancel_right]
      rw [value, ZMod.val_natCast, Nat.mod_eq_of_lt (by omega)]
      omega
    · right
      refine ⟨2 ^ n - (v + y.val), by omega, by omega, ?_⟩
      rw [Nat.cast_sub (by omega), Nat.cast_add, cast, ← sum, neg_sub, add_sub_cancel_right]
  · rintro (less | ⟨k, _, window, rfl⟩)
    · have difference := LessThan.difference small (show x.val < 2 ^ n by omega) right
      rw [ZMod.natCast_zmod_val, ZMod.natCast_zmod_val] at difference
      omega
    · have value : -(k : Fr) + 2 ^ n - y = ((2 ^ n - (k + y.val) : Nat) : Fr) := by
        rw [Nat.cast_sub window, Nat.cast_add, cast, ZMod.natCast_zmod_val]
        ring
      rw [value, ZMod.val_natCast, Nat.mod_eq_of_lt (by omega)]
      omega

theorem val_neg_natCast {k : Nat} (positive : 0 < k) (inside : k < scalarModulus) :
    (-(k : Fr)).val = scalarModulus - k := by
  have own : (k : Fr).val = k := by rw [ZMod.val_natCast, Nat.mod_eq_of_lt inside]
  have nonzero : NeZero (k : Fr) := ⟨fun zero => by
    rw [zero, ZMod.val_zero] at own
    omega⟩
  rw [ZMod.val_neg_of_ne_zero, own]

end window

namespace Vote

variable {H : IdealHash Fr} {P : Type} [AddCommGroup P] {depth : Nat} {G : Gadgets H} {C : BabyJub P}
  {w : Vote P depth}

theorem Constraints.choice_cases (constraints : w.Constraints C G) (few : w.nChoices.val < 2 ^ 16) :
    w.choice.val ≤ w.nChoices.val ∨
      ∃ k, 0 < k ∧ k + w.nChoices.val < 2 ^ 16 ∧ w.choice.val = scalarModulus - k := by
  have modulus := scalarModulus_gt
  have one : (1 : Fr).val = 1 := ZMod.val_one scalarModulus
  have next : (w.nChoices + 1).val = w.nChoices.val + 1 := by
    rw [ZMod.val_add_of_lt (by omega), one]
  rcases (LessThan.one_cases (by decide) (by omega)).1 constraints.inRange with
    less | ⟨k, positive, window, negative⟩
  · left
    omega
  · right
    refine ⟨k, positive, by omega, ?_⟩
    rw [negative, val_neg_natCast positive (by omega)]

/-- The comparison shows that a choice is in range only where it fits the comparator. -/
theorem choice_in_range_iff (constraints : w.Constraints C G) (few : w.nChoices.val < 2 ^ 16) :
    (w.plaintext 1).val ≤ w.nChoices.val ↔ w.choice.val < 2 ^ 16 := by
  rw [constraints.plaintextChoice]
  constructor
  · omega
  · intro fits
    have modulus := scalarModulus_gt
    rcases constraints.choice_cases few with inside | ⟨k, _, window, negative⟩
    · exact inside
    · omega

end Vote

namespace NegativeChoice

def table : List (List Fr × Fr) :=
  ([baseX, baseY, 0, 23, -1, 25, 26, 0, 0, 0], 33) :: ([29, 33], 34) :: TwoSignatures.table

def hash : IdealHash Fr := .ofTable table (by decide +kernel) (by decide +kernel)

def gadgets : Gadgets hash :=
  .documented hash (fun _ pk => pk) fun _ _ ciphertext decrypted => ∀ i, decrypted i = ciphertext i.castSucc

def vote : Vote (ZMod subgroupOrder) 40 :=
  { TwoSignatures.first with
    msgHash := 33
    choice := -1
    ciphertext := ![23, -1, 25, 26, 0, 0, 0]
    plaintext := ![23, -1, 25, 26]
    decrypted := ![23, -1, 25, 26, 0, 0]
    relayerNuHashRaw := 34 }

theorem vote_inclusion : vote.inclusion.Constraints hash vote.censusRoot where
  leaf := by decide +kernel
  binary := by decide +kernel
  level := by decide +kernel
  root := by decide +kernel

theorem vote_constraints : vote.Constraints TwoSignatures.curve gadgets where
  voterLeaf := by decide +kernel
  inclusion := vote_inclusion
  signedHash := by decide +kernel
  signature := ⟨⟨by decide +kernel, by decide +kernel⟩, by decide +kernel⟩
  sigValid := by decide +kernel
  sigHash := by decide +kernel
  revotingKeyNewNonzero := by decide +kernel
  revotingKeyNewFresh := by decide +kernel
  nu := by decide +kernel
  inRange := ⟨by decide +kernel, by decide +kernel⟩
  ephSkBits := ⟨by decide +kernel, by decide +kernel⟩
  plaintextNu := rfl
  plaintextChoice := rfl
  plaintextOld := by decide +kernel
  plaintextNew := by decide +kernel
  decrypt := by
    change ∀ i : Fin pad, _ = _
    decide +kernel
  decrypted := by decide +kernel
  msgHash := by decide +kernel
  relayerNu := by decide +kernel
  relayerNuHashRaw := by decide +kernel
  relayerNuHash := by decide +kernel

theorem choice_in_range_iff_signed :
    ((TwoSignatures.first.plaintext 1).val ≤ TwoSignatures.first.nChoices.val ↔
      TwoSignatures.first.choice.val < 2 ^ 16) ∧
    ((vote.plaintext 1).val ≤ vote.nChoices.val ↔ vote.choice.val < 2 ^ 16) :=
  ⟨Vote.choice_in_range_iff TwoSignatures.first_constraints (by decide +kernel),
    Vote.choice_in_range_iff vote_constraints (by decide +kernel)⟩

/-- Of a poll with two choices, a voter can choose `p - 1`. -/
theorem choice_out_of_range : ∃ (H : IdealHash Fr) (G : Gadgets H) (C : BabyJub (ZMod subgroupOrder))
    (w : Vote (ZMod subgroupOrder) 40), w.Constraints C G ∧ w.nChoices = 2 ∧ w.nChoices.val < 2 ^ 16 ∧
      (w.plaintext 1).val = scalarModulus - 1 ∧ ¬(w.plaintext 1).val ≤ w.nChoices.val :=
  ⟨hash, gadgets, TwoSignatures.curve, vote, vote_constraints, by decide +kernel, by decide +kernel,
    by decide +kernel, by decide +kernel⟩

end NegativeChoice

end Mootvote
