import Mootvote.Circom.Relay
import Mootvote.Circom.SmtTemplates
import Mootvote.Circom.TallyCount

set_option autoImplicit false

/-!
# The selectors of the tree gadgets

The gadgets use `isOld0` and `fnc` as coefficients and mean something only when these are zero or
one. What the templates themselves constrain, without the gadgets, is stated here on its own.
-/

namespace Mootvote

open Shared SparseMerkle

variable {H : IdealHash Fr} {depth maxChoices maxBatch : Nat}

def SMTVerifier.BooleanSelectors (v : SMTVerifier) : Prop := Boolean v.isOld0 ∧ Boolean v.fnc

def SMTProcessor.BooleanSelectors (p : SMTProcessor) : Prop :=
  Boolean p.isOld0 ∧ Boolean p.fnc.1 ∧ Boolean p.fnc.2

theorem boolean_zero : Boolean 0 := .inl rfl

theorem boolean_one : Boolean 1 := .inr rfl

theorem isZero_boolean (x : Fr) : Boolean (isZero x) := by
  unfold isZero
  split_ifs
  · exact .inr rfl
  · exact .inl rfl

theorem Boolean.mul {x y : Fr} (left : Boolean x) (right : Boolean y) : Boolean (x * y) := by
  rcases left with rfl | rfl
  · rw [zero_mul]
    exact boolean_zero
  · rwa [one_mul]

theorem Boolean.one_sub {x : Fr} (boolean : Boolean x) : Boolean (1 - x) := by
  rcases boolean with rfl | rfl
  · rw [sub_zero]
    exact boolean_one
  · rw [sub_self]
    exact boolean_zero

namespace Relay

variable {w : Relay depth}

/-- What `Relay` imposes besides the tree gadgets. -/
structure OwnConstraints (H : IdealHash Fr) (w : Relay depth) : Prop where
  isWithinQuota : LessThan 16 w.countOld w.msgLimit 1
  nuSplit : w.nu = w.nuLo + w.nuHi * 2 ^ depth
  nuHash : H.hash [w.nu, w.msgHash] = some w.nuHash
  rootStateOld : H.hash [w.rootQuotaOld, w.rootUniqOld] = some w.rootStateOld
  rootStateNew : H.hash [w.rootQuotaNew, w.rootUniqNew] = some w.rootStateNew

theorem constraints_iff_own {G : Gadgets H} : w.Constraints G ↔ w.OwnConstraints H ∧
    G.smtVerifier w.quotaVerifier ∧ G.smtProcessor w.quotaProcessor ∧
    G.smtVerifier w.uniqVerifier ∧ G.smtProcessor w.uniqProcessor := by
  constructor
  · rintro ⟨within, split, qv, qp, uv, up, nuHash, old, new⟩
    exact ⟨⟨within, split, nuHash, old, new⟩, qv, qp, uv, up⟩
  · rintro ⟨⟨within, split, nuHash, old, new⟩, qv, qp, uv, up⟩
    exact ⟨within, split, qv, qp, uv, up, nuHash, old, new⟩

structure BooleanSelectors (w : Relay depth) : Prop where
  quotaVerifier : w.quotaVerifier.BooleanSelectors
  quotaProcessor : w.quotaProcessor.BooleanSelectors
  uniqVerifier : w.uniqVerifier.BooleanSelectors
  uniqProcessor : w.uniqProcessor.BooleanSelectors

theorem booleanSelectors_iff : w.BooleanSelectors ↔ Boolean w.noAuxQuota ∧ Boolean w.noAuxUniq := by
  constructor
  · intro selectors
    exact ⟨selectors.quotaVerifier.1, selectors.uniqVerifier.1⟩
  · rintro ⟨quota, uniq⟩
    have empty : Boolean w.isOldEmpty := isZero_boolean _
    exact ⟨⟨quota, empty⟩, ⟨quota, empty, empty.one_sub⟩, ⟨uniq, boolean_one⟩,
      ⟨uniq, boolean_one, boolean_zero⟩⟩

end Relay

namespace TallySingle

variable {w : TallySingle depth maxChoices}

structure OwnConstraints (G : Gadgets H) (w : TallySingle depth maxChoices) : Prop where
  msgHasher : H.hash w.message.preimage = some w.msgHash
  decrypt : G.poseidonDecrypt (G.ecdh w.tallierSk w.ephPk) w.nonce w.ciphertext w.decrypted
  leafOld : H.hash [w.choiceOld, w.revotingKeyOld] = some w.leafOld
  leafNew : H.hash [w.ballot.choice, w.ballot.revotingKeyNew] = some w.leafNew
  nuSplit : w.ballot.nu = w.nuLo + w.nuHi * 2 ^ depth
  emptyChoice : w.wasLeafEmpty * w.choiceOld = 0
  hash0 : H.hash [0] = some w.hash0
  emptyKey : w.wasLeafEmpty * (w.revotingKeyOld - w.hash0) = 0
  tallyNew : ∀ t, w.tallyNew t = tallyChoice w.isVoteValid w.choiceOld w.ballot.choice (t.val + 1 : Nat)
    (w.tallyOld t)
  cumulativeMsgHash : H.hash [w.cumulativeMsgHashOld, w.msgHash] = some w.cumulativeMsgHash
  cumulativeMsgHashNew : w.cumulativeMsgHashNew =
    w.cumulativeMsgHashOld + w.enabled * (w.cumulativeMsgHash - w.cumulativeMsgHashOld)

theorem constraints_iff_own {G : Gadgets H} : w.Constraints G ↔
    w.OwnConstraints G ∧ G.smtVerifier w.verifier ∧ G.smtProcessor w.processor := by
  constructor
  · rintro ⟨hasher, decrypt, old, new, split, choice, hash0, key, verifier, processor, tally, chain, chained⟩
    exact ⟨⟨hasher, decrypt, old, new, split, choice, hash0, key, tally, chain, chained⟩, verifier, processor⟩
  · rintro ⟨⟨hasher, decrypt, old, new, split, choice, hash0, key, tally, chain, chained⟩,
      verifier, processor⟩
    exact ⟨hasher, decrypt, old, new, split, choice, hash0, key, verifier, processor, tally, chain, chained⟩

/-- Every selector that `TallySingle` passes to a gadget is zero or one, and so is `isVoteValid`. -/
structure BooleanSelectors (w : TallySingle depth maxChoices) : Prop where
  isVoteValid : Boolean w.isVoteValid
  verifier : w.verifier.BooleanSelectors
  processor : w.processor.BooleanSelectors

theorem isVoteValid_boolean_iff :
    Boolean w.isVoteValid ↔ Boolean w.enabled ∨ w.ballot.revotingKeyOld ≠ w.revotingKeyOld := by
  by_cases matched : w.ballot.revotingKeyOld = w.revotingKeyOld
  · simp [isVoteValid, revotingKeyMatches_eq_one.2 matched, matched]
  · simp [isVoteValid, revotingKeyMatches, isEqual, matched, boolean_zero]

theorem booleanSelectors_iff : w.BooleanSelectors ↔ Boolean w.noAux ∧ Boolean w.wasLeafEmpty ∧
    (Boolean w.enabled ∨ w.ballot.revotingKeyOld ≠ w.revotingKeyOld) := by
  rw [← isVoteValid_boolean_iff]
  constructor
  · rintro ⟨valid, verifier, _⟩
    exact ⟨verifier.1, verifier.2, valid⟩
  · rintro ⟨noAux, empty, valid⟩
    exact ⟨valid, ⟨noAux, empty⟩, ⟨noAux, valid.mul empty, valid.mul empty.one_sub⟩⟩

end TallySingle

theorem Tally.booleanSelectors_iff {G : Gadgets H} {w : Tally depth maxChoices maxBatch}
    (constraints : w.Constraints G)
    (i : Fin maxBatch) : (w.tallySingle i).BooleanSelectors ↔ (w.tallySingle i).BooleanControls := by
  rw [TallySingle.booleanSelectors_iff]
  have enabled := (constraints.enabled i).boolean
  exact ⟨fun ⟨noAux, empty, _⟩ => ⟨noAux, empty⟩, fun ⟨noAux, empty⟩ => ⟨noAux, empty, .inl enabled⟩⟩

/-- The gadgets get boolean selectors exactly when the prover's hints and the entry's `enabled` are boolean. -/
theorem selectors_boolean_iff {G : Gadgets H} :
    (∀ w : Relay depth, w.OwnConstraints H → (w.BooleanSelectors ↔ Boolean w.noAuxQuota ∧
      Boolean w.noAuxUniq)) ∧
    ∀ w : TallySingle depth maxChoices, w.OwnConstraints G → (w.BooleanSelectors ↔
      Boolean w.noAux ∧ Boolean w.wasLeafEmpty ∧
        (Boolean w.enabled ∨ w.ballot.revotingKeyOld ≠ w.revotingKeyOld)) :=
  ⟨fun _ _ => Relay.booleanSelectors_iff, fun _ _ => TallySingle.booleanSelectors_iff⟩

namespace DoubleRelay

def doubled : Relay 64 := { first with noAuxQuota := 2, noAuxUniq := 2 }

theorem doubled_own : doubled.OwnConstraints hash where
  isWithinQuota := first_constraints.isWithinQuota
  nuSplit := first_constraints.nuSplit
  nuHash := first_constraints.nuHash
  rootStateOld := first_constraints.rootStateOld
  rootStateNew := first_constraints.rootStateNew

def circomlib : Gadgets hash := .circomlib hash (fun _ pk => pk) fun _ _ _ _ => False

/-- The first message a second time. A leaf 4 that no tree has shows that nothing of it is on record. -/
def replayed : Relay 64 :=
  { first with
    rootStateOld := 221
    rootStateNew := 331
    rootQuotaOld := 201
    rootUniqOld := 211
    noAuxQuota := 202
    auxKeyQuota := 4
    auxValueQuota := 9
    noAuxUniq := 212
    auxKeyUniq := 4
    auxValueUniq := 9
    rootQuotaNew := -25527
    rootUniqNew := -24898 }

theorem replayed_constraints : replayed.Constraints circomlib where
  isWithinQuota := first_constraints.isWithinQuota
  nuSplit := first_constraints.nuSplit
  quotaVerifier := Circomlib.verifier_of_scaled (-1) rfl (by decide +kernel) (by decide +kernel)
    (by decide +kernel) (by decide +kernel) (by decide +kernel) (by decide +kernel)
  quotaProcessor := Circomlib.processor_of_scaled (-1) 201 329 (by decide +kernel)
    (by decide +kernel) (by decide +kernel) (by decide +kernel) (by decide +kernel) (by decide +kernel)
    (by decide +kernel) (by decide +kernel) (by decide +kernel)
  uniqVerifier := Circomlib.verifier_of_scaled (-1) rfl rfl (by decide +kernel)
    (by decide +kernel) (by decide +kernel) (by decide +kernel) (by decide +kernel)
  uniqProcessor := Circomlib.processor_of_scaled (-1) 211 330 rfl
    (by decide +kernel) (by decide +kernel) (by decide +kernel) (by decide +kernel) (by decide +kernel)
    (by decide +kernel) (by decide +kernel) (by decide +kernel)
  nuHash := first_constraints.nuHash
  rootStateOld := by decide +kernel
  rootStateNew := by decide +kernel

end DoubleRelay

namespace DoubleCount

def doubled : TallySingle 64 11 := { first with noAux := 2, wasLeafEmpty := 2 }

theorem doubled_own : doubled.OwnConstraints gadgets where
  msgHasher := first_constraints.msgHasher
  decrypt := first_constraints.decrypt
  leafOld := first_constraints.leafOld
  leafNew := first_constraints.leafNew
  nuSplit := first_constraints.nuSplit
  emptyChoice := by decide +kernel
  hash0 := first_constraints.hash0
  emptyKey := by decide +kernel
  tallyNew := first_constraints.tallyNew
  cumulativeMsgHash := first_constraints.cumulativeMsgHash
  cumulativeMsgHashNew := first_constraints.cumulativeMsgHashNew

def circomlib : Gadgets hash :=
  .circomlib hash (fun _ pk => pk) fun _ _ ciphertext decrypted => ∀ i, decrypted i = ciphertext i.castSucc

/-- The second message as if leaf 5 were empty, which a leaf 4 that no tree has shows. -/
def forged : TallySingle 64 11 :=
  { second with
    noAux := -106
    auxKey := 4
    auxValue := 9
    rootNew := 22256
    nuLo := 5
    nuHi := 0 }

theorem forged_constraints : forged.Constraints circomlib where
  msgHasher := second_constraints.msgHasher
  decrypt := first_constraints.decrypt
  leafOld := first_constraints.leafOld
  leafNew := first_constraints.leafNew
  nuSplit := first_constraints.nuSplit
  emptyChoice := first_constraints.emptyChoice
  hash0 := first_constraints.hash0
  emptyKey := first_constraints.emptyKey
  verifier := Circomlib.verifier_of_scaled 1 rfl rfl (by decide +kernel) (by decide +kernel) (by decide +kernel)
    (by decide +kernel) (by decide +kernel)
  processor := Circomlib.processor_of_scaled 1 107 314 (by decide +kernel) (by decide +kernel)
    (by decide +kernel) (by decide +kernel) (by decide +kernel) (by decide +kernel) (by decide +kernel)
    (by decide +kernel) (by decide +kernel)
  tallyNew := second_constraints.tallyNew
  cumulativeMsgHash := second_constraints.cumulativeMsgHash
  cumulativeMsgHashNew := second_constraints.cumulativeMsgHashNew

/-- Both templates accept selectors of two, and with circomlib's tree circuits some that are no bits. -/
theorem selectors_not_boolean :
    (DoubleRelay.doubled.OwnConstraints DoubleRelay.hash ∧ ¬Boolean DoubleRelay.doubled.quotaVerifier.isOld0 ∧
      ¬Boolean DoubleRelay.doubled.uniqVerifier.isOld0) ∧
    (doubled.OwnConstraints gadgets ∧ ¬Boolean doubled.verifier.isOld0 ∧ ¬Boolean doubled.verifier.fnc ∧
      ¬Boolean doubled.processor.fnc.1) ∧
    (DoubleRelay.replayed.Constraints DoubleRelay.circomlib ∧
      ¬Boolean DoubleRelay.replayed.quotaVerifier.isOld0 ∧
      ¬Boolean DoubleRelay.replayed.uniqVerifier.isOld0) ∧
    forged.Constraints circomlib ∧ ¬Boolean forged.verifier.isOld0 ∧ ¬Boolean forged.processor.isOld0 :=
  ⟨⟨DoubleRelay.doubled_own, by decide +kernel, by decide +kernel⟩,
    ⟨doubled_own, by decide +kernel, by decide +kernel, by decide +kernel⟩,
    ⟨DoubleRelay.replayed_constraints, by decide +kernel, by decide +kernel⟩,
    forged_constraints, by decide +kernel, by decide +kernel⟩

theorem selectors_boolean_iff_doubled :
    (DoubleRelay.doubled.BooleanSelectors ↔
      Boolean DoubleRelay.doubled.noAuxQuota ∧ Boolean DoubleRelay.doubled.noAuxUniq) ∧
    (doubled.BooleanSelectors ↔ Boolean doubled.noAux ∧ Boolean doubled.wasLeafEmpty ∧
      (Boolean doubled.enabled ∨ doubled.ballot.revotingKeyOld ≠ doubled.revotingKeyOld)) :=
  ⟨(@selectors_boolean_iff _ 64 11 DoubleRelay.gadgets).1 _ DoubleRelay.doubled_own,
    (@selectors_boolean_iff _ 64 11 gadgets).2 _ doubled_own⟩

end DoubleCount

end Mootvote
