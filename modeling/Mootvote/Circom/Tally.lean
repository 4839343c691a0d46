import Mootvote.Circom.Gadgets
import Mootvote.Shared.Steps

set_option autoImplicit false

namespace Mootvote

open Shared SparseMerkle

variable {H : IdealHash Fr} {depth maxChoices maxBatch : Nat}

def tallyChoice (enabled choiceOld choiceNew choiceNumber tallyOld : Fr) : Fr :=
  tallyOld + enabled * (isEqual choiceNew choiceNumber - isEqual choiceOld choiceNumber)

structure TallySingle (depth maxChoices : Nat) where
  enabled : Fr
  rootOld : Fr
  cumulativeMsgHashOld : Fr
  tallyOld : Fin maxChoices → Fr
  tallierSk : Fr
  ephPk : Fr × Fr
  nonce : Fr
  ciphertext : Fin ctLen → Fr
  siblings : Fin depth → Fr
  choiceOld : Fr
  revotingKeyOld : Fr
  noAux : Fr
  auxKey : Fr
  auxValue : Fr
  wasLeafEmpty : Fr
  rootNew : Fr
  cumulativeMsgHashNew : Fr
  tallyNew : Fin maxChoices → Fr
  msgHash : Fr
  decrypted : Fin pad → Fr
  leafOld : Fr
  leafNew : Fr
  nuLo : Fr
  nuHi : Fr
  hash0 : Fr
  cumulativeMsgHash : Fr

structure TallyAcc (maxChoices : Nat) where
  root : Fr
  cumulativeMsgHash : Fr
  tally : Fin maxChoices → Fr

namespace TallySingle

variable (w : TallySingle depth maxChoices)

def message : Message := { ephPk := w.ephPk, nonce := w.nonce, ciphertext := w.ciphertext }

def ballot : Ballot := Ballot.ofDecrypted w.decrypted

def revotingKeyMatches : Fr := isEqual w.ballot.revotingKeyOld w.revotingKeyOld

def isVoteValid : Fr := w.enabled * w.revotingKeyMatches

def verifier : SMTVerifier :=
  { enabled := w.enabled, root := w.rootOld, siblings := List.ofFn w.siblings, oldKey := w.auxKey,
    oldValue := w.auxValue, isOld0 := w.noAux, key := w.nuLo, value := w.leafOld, fnc := w.wasLeafEmpty }

def processor : SMTProcessor :=
  { oldRoot := w.rootOld, siblings := List.ofFn w.siblings, oldKey := w.auxKey, oldValue := w.auxValue,
    isOld0 := w.noAux, newKey := w.nuLo, newValue := w.leafNew,
    fnc := (w.isVoteValid * w.wasLeafEmpty, w.isVoteValid * (1 - w.wasLeafEmpty)), newRoot := w.rootNew }

structure Constraints (G : Gadgets H) : Prop where
  msgHasher : H.hash w.message.preimage = some w.msgHash
  decrypt : G.poseidonDecrypt (G.ecdh w.tallierSk w.ephPk) w.nonce w.ciphertext w.decrypted
  leafOld : H.hash [w.choiceOld, w.revotingKeyOld] = some w.leafOld
  leafNew : H.hash [w.ballot.choice, w.ballot.revotingKeyNew] = some w.leafNew
  -- nuLo and nuHi are hints: this is the only constraint that mentions nuHi.
  nuSplit : w.ballot.nu = w.nuLo + w.nuHi * 2 ^ depth
  emptyChoice : w.wasLeafEmpty * w.choiceOld = 0
  hash0 : H.hash [0] = some w.hash0
  emptyKey : w.wasLeafEmpty * (w.revotingKeyOld - w.hash0) = 0
  verifier : G.smtVerifier w.verifier
  processor : G.smtProcessor w.processor
  tallyNew : ∀ t, w.tallyNew t = tallyChoice w.isVoteValid w.choiceOld w.ballot.choice (t.val + 1 : Nat)
    (w.tallyOld t)
  cumulativeMsgHash : H.hash [w.cumulativeMsgHashOld, w.msgHash] = some w.cumulativeMsgHash
  cumulativeMsgHashNew : w.cumulativeMsgHashNew =
    w.cumulativeMsgHashOld + w.enabled * (w.cumulativeMsgHash - w.cumulativeMsgHashOld)

def accOld : TallyAcc maxChoices :=
  { root := w.rootOld, cumulativeMsgHash := w.cumulativeMsgHashOld, tally := w.tallyOld }

def accNew : TallyAcc maxChoices :=
  { root := w.rootNew, cumulativeMsgHash := w.cumulativeMsgHashNew, tally := w.tallyNew }

def BooleanControls : Prop := Boolean w.noAux ∧ Boolean w.wasLeafEmpty

instance : Decidable w.BooleanControls := inferInstanceAs (Decidable (_ ∧ _))

def CanonicalKey : Prop := CanonicalSplit depth w.nuLo w.nuHi

instance : Decidable w.CanonicalKey := inferInstanceAs (Decidable (CanonicalSplit _ _ _))

structure Step (G : Gadgets H) (acc : TallyAcc maxChoices) (w : TallySingle depth maxChoices)
    (acc' : TallyAcc maxChoices) : Prop where
  constraints : w.Constraints G
  boolean : Boolean w.enabled
  old : w.accOld = acc
  new : w.accNew = acc'

end TallySingle

def enabledMessages (es : List (TallySingle depth maxChoices)) : List Message :=
  (es.filter fun e => e.enabled = 1).map TallySingle.message

theorem enabledMessages_append (es es' : List (TallySingle depth maxChoices)) :
    enabledMessages (es ++ es') = enabledMessages es ++ enabledMessages es' := by
  simp [enabledMessages]

def enabledBallots (es : List (TallySingle depth maxChoices)) : List Ballot :=
  (es.filter fun e => e.enabled = 1).map TallySingle.ballot

theorem enabledBallots_append (es es' : List (TallySingle depth maxChoices)) :
    enabledBallots (es ++ es') = enabledBallots es ++ enabledBallots es' := by
  simp [enabledBallots]

/-- The signals of a batch; the entries hold the rows of its input arrays. -/
structure Tally (depth maxChoices maxBatch : Nat) where
  rootOld : Fr
  cumulativeMsgHashOld : Fr
  tallyHashOld : Fr
  rootNew : Fr
  cumulativeMsgHashNew : Fr
  tallyHashNew : Fr
  batchLen : Fr
  tallyOld : Fin maxChoices → Fr
  tallySaltOld : Fr
  tallySaltNew : Fr
  tallierSk : Fr
  rootAcc : Fin (maxBatch + 1) → Fr
  cumulativeMsgHashAcc : Fin (maxBatch + 1) → Fr
  tallyAcc : Fin (maxBatch + 1) → Fin maxChoices → Fr
  tallySingle : Fin maxBatch → TallySingle depth maxChoices

structure TallyState where
  root : Fr
  cumulativeMsgHash : Fr
  tallyHash : Fr
deriving DecidableEq

namespace Tally

variable (w : Tally depth maxChoices maxBatch)

def acc (i : Fin (maxBatch + 1)) : TallyAcc maxChoices :=
  { root := w.rootAcc i, cumulativeMsgHash := w.cumulativeMsgHashAcc i, tally := w.tallyAcc i }

structure Constraints (G : Gadgets H) : Prop where
  tallyHashOld : H.hash (w.tallySaltOld :: List.ofFn w.tallyOld) = some w.tallyHashOld
  isFirstBatch : ∀ t, isZero w.cumulativeMsgHashOld * w.tallyOld t = 0
  accZero : w.acc 0 =
    { root := w.rootOld, cumulativeMsgHash := w.cumulativeMsgHashOld, tally := w.tallyOld }
  enabled : ∀ i, LessThan 16 (i.val : Nat) w.batchLen (w.tallySingle i).enabled
  accOld : ∀ i, (w.tallySingle i).accOld = w.acc i.castSucc
  accNew : ∀ i, (w.tallySingle i).accNew = w.acc i.succ
  tallierSk : ∀ i, (w.tallySingle i).tallierSk = w.tallierSk
  tallySingle : ∀ i, (w.tallySingle i).Constraints G
  cumulativeMsgHashNew : w.cumulativeMsgHashNew = w.cumulativeMsgHashAcc (Fin.last maxBatch)
  tallyHashNew : H.hash (w.tallySaltNew :: List.ofFn (w.tallyAcc (Fin.last maxBatch))) = some w.tallyHashNew
  rootNew : w.rootNew = w.rootAcc (Fin.last maxBatch)

def publicSignals : List Fr :=
  [w.tallyHashOld, w.rootNew, w.cumulativeMsgHashNew, w.tallyHashNew, w.rootOld, w.cumulativeMsgHashOld]

def stateOld : TallyState :=
  { root := w.rootOld, cumulativeMsgHash := w.cumulativeMsgHashOld, tallyHash := w.tallyHashOld }

def stateNew : TallyState :=
  { root := w.rootNew, cumulativeMsgHash := w.cumulativeMsgHashNew, tallyHash := w.tallyHashNew }

def entries : List (TallySingle depth maxChoices) := List.ofFn w.tallySingle

def messages : List Message := enabledMessages w.entries

def ballots : List Ballot := enabledBallots w.entries

structure Step (G : Gadgets H) (s : TallyState) (w : Tally depth maxChoices maxBatch) (s' : TallyState) :
    Prop where
  constraints : w.Constraints G
  old : w.stateOld = s
  new : w.stateNew = s'

end Tally

section entry

variable {G : Gadgets H} {w : TallySingle depth maxChoices}

namespace TallySingle

theorem revotingKeyMatches_eq_one : w.revotingKeyMatches = 1 ↔ w.ballot.revotingKeyOld = w.revotingKeyOld :=
  isEqual_eq_one

theorem Constraints.disabled (constraints : w.Constraints G) (off : w.enabled = 0) : w.accNew = w.accOld := by
  have invalid : w.isVoteValid = 0 := by rw [isVoteValid, off, zero_mul]
  have sameRoot : w.rootNew = w.rootOld :=
    G.noOp w.processor constraints.processor (by simp [TallySingle.processor, invalid])
  have sameHash : w.cumulativeMsgHashNew = w.cumulativeMsgHashOld := by
    rw [constraints.cumulativeMsgHashNew, off, zero_mul, add_zero]
  have sameTally : w.tallyNew = w.tallyOld := by
    funext t
    rw [constraints.tallyNew, tallyChoice, invalid, zero_mul, add_zero]
  rw [accNew, accOld, sameRoot, sameHash, sameTally]

theorem Constraints.absorbs (constraints : w.Constraints G) (on : w.enabled = 1) :
    H.hash [w.cumulativeMsgHashOld, w.msgHash] = some w.cumulativeMsgHashNew := by
  rw [constraints.cumulativeMsgHash, constraints.cumulativeMsgHashNew, on, one_mul, add_sub_cancel]

theorem Constraints.opens (constraints : w.Constraints G) : G.Opens w.message w.ballot :=
  ⟨_, _, constraints.decrypt, rfl⟩

inductive Effect (H : IdealHash Fr) (w : TallySingle depth maxChoices) (t : SparseTree Fr) :
    SparseTree Fr → Prop
  | skipped (mismatch : w.ballot.revotingKeyOld ≠ w.revotingKeyOld) : Effect H w t t
  | inserted {t' : SparseTree Fr} (found : w.ballot.revotingKeyOld = w.revotingKeyOld)
    (absent : w.wasLeafEmpty = 1)
      (done : t.add w.nuLo w.leafNew depth 0 = some t') : Effect H w t t'
  | updated {t' : SparseTree Fr} (found : w.ballot.revotingKeyOld = w.revotingKeyOld)
    (present : w.wasLeafEmpty = 0)
      (done : t.set w.nuLo w.leafNew 0 = some (w.leafOld, t')) : Effect H w t t'

theorem Constraints.lookup (constraints : w.Constraints G) (on : w.enabled = 1) (controls : w.BooleanControls)
    {t : SparseTree Fr} (committed : t.commit H = some w.rootOld) :
    t.lookup w.nuLo 0 = if w.wasLeafEmpty = 1 then none else some w.leafOld := by
  rcases controls.2 with present | absent
  · rw [if_neg (by simp [present])]
    exact (G.inclusion w.verifier constraints.verifier on controls.1 present).lookup committed
  · rw [if_pos absent]
    exact (G.exclusion w.verifier constraints.verifier on controls.1 absent).lookup committed

theorem Constraints.effect (constraints : w.Constraints G) (on : w.enabled = 1) (controls : w.BooleanControls)
    {t : SparseTree Fr} (committed : t.commit H = some w.rootOld) :
    ∃ t', t'.commit H = some w.rootNew ∧ Effect H w t t' := by
  have found := constraints.lookup on controls committed
  by_cases matched : w.ballot.revotingKeyOld = w.revotingKeyOld
  · have valid : w.isVoteValid = 1 := by
      rw [isVoteValid, on, revotingKeyMatches_eq_one.2 matched, one_mul]
    rcases controls.2 with present | absent
    · -- The processor's old value is the verified leaf, since both sit under one key of one tree.
      have updated := G.update w.processor constraints.processor controls.1
        (by simp [TallySingle.processor, valid, present])
      obtain ⟨t', done, committed'⟩ := updated.set committed
      have stored := SparseTree.lookup_of_set done
      rw [show w.processor.newKey = w.nuLo from rfl, found, if_neg (by simp [present]),
        Option.some.injEq] at stored
      rw [← stored] at done
      exact ⟨t', committed', .updated matched present done⟩
    · have inserted := G.insertion w.processor constraints.processor controls.1
        (by simp [TallySingle.processor, valid, absent])
      obtain ⟨t', done, committed'⟩ := inserted.add committed
      rw [show w.processor.opening.siblings.length = depth from List.length_ofFn] at done
      exact ⟨t', committed', .inserted matched absent done⟩
  · have invalid : w.isVoteValid = 0 := by
      rw [isVoteValid, revotingKeyMatches, isEqual, if_neg matched, mul_zero]
    have same : w.rootNew = w.rootOld :=
      G.noOp w.processor constraints.processor (by simp [TallySingle.processor, invalid])
    exact ⟨t, by rw [same, committed], .skipped matched⟩

theorem Step.absorbs {acc acc' : TallyAcc maxChoices} (step : Step G acc w acc') :
    Absorbs H acc.cumulativeMsgHash (enabledMessages [w]) acc'.cumulativeMsgHash := by
  obtain ⟨constraints, boolean, rfl, rfl⟩ := step
  rcases boolean with off | on
  · rw [constraints.disabled off, show enabledMessages [w] = [] by simp [enabledMessages, off]]
    exact .nil _
  · rw [show enabledMessages [w] = [w.message] by simp [enabledMessages, on]]
    exact .single constraints.msgHasher (constraints.absorbs on)

end TallySingle

end entry

section batch

variable {G : Gadgets H} {w : Tally depth maxChoices maxBatch}

namespace Tally

theorem Constraints.run (constraints : w.Constraints G) :
    Steps (TallySingle.Step G) (w.acc 0) w.entries (w.acc (Fin.last maxBatch)) :=
  Steps.ofFn w.acc w.tallySingle fun i =>
    { constraints := constraints.tallySingle i
      boolean := (constraints.enabled i).boolean
      old := constraints.accOld i
      new := constraints.accNew i }

theorem Constraints.absorbs (constraints : w.Constraints G) :
    Absorbs H w.cumulativeMsgHashOld w.messages w.cumulativeMsgHashNew := by
  have absorbed := constraints.run.invariant
    (I := fun past acc => Absorbs H (w.acc 0).cumulativeMsgHash (enabledMessages past) acc.cumulativeMsgHash)
    (.nil _) (fun past acc e acc' _ before step => by
      rw [enabledMessages_append]
      exact before.append step.absorbs)
  rw [constraints.accZero] at absorbed
  rw [constraints.cumulativeMsgHashNew]
  exact absorbed

theorem Constraints.tally_first (constraints : w.Constraints G) (first : w.cumulativeMsgHashOld = 0) :
    w.tallyOld = fun _ => 0 := by
  funext t
  have zero := constraints.isFirstBatch t
  rwa [isZero, if_pos first, one_mul] at zero

theorem absorbs_run {ws : List (Tally depth maxChoices maxBatch)} {s s' : TallyState}
    (run : Steps (Step G) s ws s') :
    Absorbs H s.cumulativeMsgHash (ws.flatMap messages) s'.cumulativeMsgHash := by
  refine run.invariant (I := fun past mid =>
    Absorbs H s.cumulativeMsgHash (past.flatMap messages) mid.cumulativeMsgHash) (.nil _) ?_
  rintro past _ w _ _ before ⟨constraints, rfl, rfl⟩
  rw [List.flatMap_append, List.flatMap_singleton]
  exact before.append constraints.absorbs

theorem Constraints.opens (constraints : w.Constraints G) : List.Forall₂ G.Opens w.messages w.ballots := by
  have opens : ∀ e ∈ w.entries, G.Opens e.message e.ballot := by
    intro e member
    obtain ⟨i, rfl⟩ := (List.mem_ofFn' w.tallySingle e).1 member
    exact (constraints.tallySingle i).opens
  unfold messages ballots enabledMessages enabledBallots
  rw [List.forall₂_map_left_iff, List.forall₂_map_right_iff, List.forall₂_same]
  exact fun e member => opens e (List.mem_of_mem_filter member)

theorem opens_run {ws : List (Tally depth maxChoices maxBatch)} {s s' : TallyState}
    (run : Steps (Step G) s ws s') : List.Forall₂ G.Opens (ws.flatMap messages) (ws.flatMap ballots) := by
  refine run.invariant (I := fun past _ => List.Forall₂ G.Opens (past.flatMap messages)
    (past.flatMap ballots))
    .nil ?_
  rintro past _ w _ _ before ⟨constraints, rfl, rfl⟩
  rw [List.flatMap_append, List.flatMap_append, List.flatMap_singleton, List.flatMap_singleton]
  exact List.rel_append before constraints.opens

end Tally

end batch

end Mootvote
