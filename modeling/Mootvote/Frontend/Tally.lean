import Mathlib.Data.List.Sort
import Mootvote.Circom.TallyBatch
import Mootvote.Frontend.Merkletree
import Mootvote.Frontend.VotesPage

set_option autoImplicit false

namespace Mootvote.Frontend

open Shared Indexer

abbrev stateDepth : Nat := 64

abbrev maxBatch : Nat := 6

abbrev maxChoices : Nat := 11

def hash0 : Fr := 19014214495641488759237505126948346942972912379615652741039992445865937985820

structure Cipher where
  mulPointEscalar : Fr × Fr → Fr → Fr × Fr
  poseidonDecrypt : List Fr → Fr × Fr → Fr → Nat → Except JsError (List Fr)

structure PollDetail where
  pollId : Nat
  -- The length of `poll.choices`.
  choices : Nat

structure Keypair where
  sk : Fr
  pub : Fr × Fr

def Keypair.accountId (keypair : Keypair) : List Char :=
  Nat.toDigits 16 keypair.pub.1.val ++ ':' :: Nat.toDigits 16 keypair.pub.2.val

section store

structure LeafData where
  choice : Fr
  revotingKey : Fr
  hash : Fr
deriving DecidableEq

def setEntry (idx : Nat) (data : LeafData) : List (Nat × LeafData) → List (Nat × LeafData)
  | [] => [(idx, data)]
  | entry :: rest => if entry.1 = idx then (idx, data) :: rest else entry :: setEntry idx data rest

theorem keys_setEntry (idx : Nat) (data : LeafData) (entries : List (Nat × LeafData)) :
    (setEntry idx data entries).map Prod.fst =
      if idx ∈ entries.map Prod.fst then entries.map Prod.fst else entries.map Prod.fst ++ [idx] := by
  induction entries with
  | nil => rfl
  | cons entry rest ih =>
      rw [setEntry]
      by_cases own : entry.1 = idx
      · simp [own]
      · rw [if_neg own, List.map_cons, ih, List.map_cons]
        by_cases later : idx ∈ rest.map Prod.fst
        · rw [if_pos later, if_pos (List.mem_cons_of_mem _ later)]
        · rw [if_neg later, if_neg (by simp [Ne.symm own, later]), List.cons_append]

/-- A record with decimal indices as its keys, in the order of their insertion. -/
structure Leaves where
  entries : List (Nat × LeafData)
  nodup : (entries.map Prod.fst).Nodup

namespace Leaves

def empty : Leaves := ⟨[], .nil⟩

def get (leaves : Leaves) (idx : Nat) : Option LeafData :=
  (leaves.entries.find? fun entry => entry.1 = idx).map Prod.snd

def set (leaves : Leaves) (idx : Nat) (data : LeafData) : Leaves where
  entries := setEntry idx data leaves.entries
  nodup := by
    rw [keys_setEntry]
    split_ifs with present
    · exact leaves.nodup
    · exact leaves.nodup.append (List.nodup_singleton idx) (by simpa using present)

/-- `Object.entries`: array indices come first, in ascending order, then the other keys as inserted. -/
def objectEntries (leaves : Leaves) : List (Nat × LeafData) :=
  (leaves.entries.filter fun entry => entry.1 < 2 ^ 32 - 1).insertionSort (fun a b => a.1 ≤ b.1) ++
    leaves.entries.filter fun entry => !decide (entry.1 < 2 ^ 32 - 1)

variable {leaves : Leaves} {idx : Nat} {data : LeafData}

theorem get_eq_some_iff : leaves.get idx = some data ↔ (idx, data) ∈ leaves.entries := by
  rcases leaves with ⟨entries, nodup⟩
  simp only [get]
  induction entries with
  | nil => simp
  | cons entry rest ih =>
      rw [List.map_cons, List.nodup_cons] at nodup
      rw [List.find?_cons, List.mem_cons]
      by_cases own : entry.1 = idx
      · have elsewhere : (idx, data) ∉ rest := fun member => nodup.1 (own ▸ List.mem_map_of_mem member)
        simp [own, elsewhere, Prod.ext_iff, eq_comm]
      · have other : (idx, data) ≠ entry := fun same => own (congrArg Prod.fst same).symm
        simpa [own, other] using ih nodup.2

theorem mem_set {entry : Nat × LeafData} (member : entry ∈ (leaves.set idx data).entries) :
    entry = (idx, data) ∨ entry ∈ leaves.entries := by
  rcases leaves with ⟨entries, nodup⟩
  change entry ∈ setEntry idx data entries at member
  change _ ∨ entry ∈ entries
  clear nodup
  induction entries with
  | nil => exact .inl (by simpa [setEntry] using member)
  | cons first rest ih =>
      rw [setEntry] at member
      split_ifs at member
      · rcases List.mem_cons.1 member with own | later
        · exact .inl own
        · exact .inr (List.mem_cons_of_mem _ later)
      · rcases List.mem_cons.1 member with same | later
        · exact .inr (same ▸ List.mem_cons_self)
        · exact (ih later).imp_right (List.mem_cons_of_mem _)

theorem get_set (leaves : Leaves) (idx : Nat) (data : LeafData) (other : Nat) :
    (leaves.set idx data).get other = if other = idx then some data else leaves.get other := by
  rcases leaves with ⟨entries, nodup⟩
  simp only [set, get]
  clear nodup
  induction entries with
  | nil =>
      by_cases own : other = idx
      · simp [setEntry, own]
      · simp [setEntry, own, Ne.symm own]
  | cons first rest ih =>
      rw [setEntry]
      by_cases replaced : first.1 = idx
      · by_cases own : other = idx
        · simp [replaced, own]
        · simp [replaced, own, Ne.symm own]
      · rw [if_neg replaced, List.find?_cons, List.find?_cons]
        by_cases here : first.1 = other
        · simp [here, show other ≠ idx from fun same => replaced (here.trans same)]
        · simpa [here] using ih

theorem objectEntries_perm (leaves : Leaves) : leaves.objectEntries.Perm leaves.entries :=
  ((List.perm_insertionSort _ _).append_right _).trans (List.filter_append_perm _ _)

end Leaves

structure TallyStore where
  pollId : Nat
  accountId : List Char
  processedAfterId : UInt64
  processedCount : Nat
  rootHex : List Char
  runningMsgHashHex : List Char
  tallySaltHex : List Char
  -- The numbers that the decimal strings write.
  tallyCounts : List Int
  leaves : Leaves

end store

section conversions

def toHex32 (n : Nat) : List Char := hexEncode (bytesBE 32 n)

def bigIntHex (hex : List Char) : Except JsError Nat :=
  match hexBigInt hex with
  | some n => .ok n
  | none => .error .syntaxError

theorem bigIntHex_toHex32 {n : Nat} (small : n < 256 ^ 32) : bigIntHex (toHex32 n) = .ok n := by
  have nonempty : toHex32 n ≠ [] := by
    intro empty
    have length := congrArg List.length empty
    simp [toHex32, hexEncode, List.length_flatMap] at length
  rw [bigIntHex, hexBigInt, if_neg nonempty, toHex32, hexFold_hexEncode]
  show Except.ok (ofBytesBE (bytesBE 32 n)) = _
  rw [ofBytesBE_bytesBE, Nat.mod_eq_of_lt small]

def readRow (v : VoteOut) : Except JsError ReadVote :=
  match readVote v with
  | some vote => .ok vote
  | none =>
      .error (if (hexBigInt v.ephX).isSome ∧ (hexBigInt v.ephY).isSome then .error "bad ciphertext len"
        else .syntaxError)

end conversions

section building

variable (H : IdealHash Fr) (lib : Merkletree) (cipher : Cipher) (poll : PollDetail) (keypair : Keypair)

structure TallyLoop where
  mt : lib.Tree
  runningMsgHash : Fr
  tallyCounts : List Int
  leavesMap : Leaves
  arrays : TallyArrays

variable {lib}

def addOrUpdate (mt : lib.Tree) (idx : Nat) (leaf : Fr) :
    Except JsError (CircomProcessorProof × lib.Tree × Fr) :=
  match lib.addAndGetCircomProof mt idx leaf with
  | .ok (proof, mt) => .ok (proof, mt, 1)
  | .error .entryIndexAlreadyExists => do
      let (proof, mt) ← lib.update mt idx leaf
      return (proof, mt, 0)
  | .error e => .error e

/-- `if (choice !== 0n) counts[Number(choice) - 1] += delta`, which throws where the array ends. -/
def addToCount (counts : List Int) (choice : Fr) (delta : Int) : Except JsError (List Int) :=
  if choice = 0 then .ok counts
  else
    match counts[choice.val - 1]? with
    | some count => .ok (counts.set (choice.val - 1) (count + delta))
    | none => .error .typeError

def moveCount (counts : List Int) (choiceOld choice : Fr) : Except JsError (List Int) := do
  let counts ← addToCount counts choiceOld (-1)
  addToCount counts choice 1

def TallyLoop.pushWasLeafEmpty (st : TallyLoop lib) (wasLeafEmpty : Fr) : TallyArrays :=
  { st.arrays with wasLeafEmpty := st.arrays.wasLeafEmpty ++ [wasLeafEmpty] }

def enterVote (st : TallyLoop lib) (ballot : Ballot) (idx : Nat) (choiceOld : Fr) :
    Except JsError (CircomProcessorProof × TallyLoop lib) := do
  let leaf ← poseidon H [ballot.choice, ballot.revotingKeyNew]
  let (proof, mt, wasLeafEmpty) ← addOrUpdate st.mt idx leaf
  let tallyCounts ← moveCount st.tallyCounts choiceOld ballot.choice
  return (proof,
    { st with
      mt, tallyCounts
      leavesMap := st.leavesMap.set idx
        { choice := ballot.choice, revotingKey := ballot.revotingKeyNew, hash := leaf }
      arrays := st.pushWasLeafEmpty wasLeafEmpty })

def skipVote (st : TallyLoop lib) (idx : Nat) (leafOld : Option LeafData) :
    Except JsError (CircomProcessorProof × TallyLoop lib) := do
  let proof ← lib.generateCircomVerifierProof st.mt idx
  return (proof.withIsOld0 (proof.fnc = 1 ∧ proof.oldValue = 0),
    { st with arrays := st.pushWasLeafEmpty (if leafOld.isSome then 0 else 1) })

/-- `idx`, the low bits of the nullifier. -/
def leafIdx (ballot : Ballot) : Nat := ballot.nu.val % 2 ^ stateDepth

def TallyLoop.leafOld (st : TallyLoop lib) (ballot : Ballot) : Option LeafData :=
  st.leavesMap.get (leafIdx ballot)

def TallyLoop.choiceOld (st : TallyLoop lib) (ballot : Ballot) : Fr :=
  ((st.leafOld ballot).map LeafData.choice).getD 0

def TallyLoop.revotingOld (st : TallyLoop lib) (ballot : Ballot) : Fr :=
  ((st.leafOld ballot).map LeafData.revotingKey).getD hash0

def recordVote (st : TallyLoop lib) (ballot : Ballot) :
    Except JsError (CircomProcessorProof × TallyLoop lib) :=
  if st.revotingOld ballot = ballot.revotingKeyOld then
    enterVote H st ballot (leafIdx ballot) (st.choiceOld ballot)
  else skipVote st (leafIdx ballot) (st.leafOld ballot)

def ballotOf (plain : List Fr) : Except JsError Ballot :=
  match plain with
  | nu :: choice :: revotingKeyOld :: revotingKeyNew :: _ =>
      .ok { nu, choice, revotingKeyOld, revotingKeyNew }
  | _ => .error .typeError

-- The curve point `R`.
def ReadVote.ephPk (vote : ReadVote) : Fr × Fr := (vote.r.1, vote.r.2)

def ReadVote.ciphertext (vote : ReadVote) : List Fr := vote.ctWords.map Nat.cast

def tallyVote (st : TallyLoop lib) (v : VoteOut) : Except JsError (TallyLoop lib) := do
  let vote ← readRow v
  let plain ←
    cipher.poseidonDecrypt vote.ciphertext (cipher.mulPointEscalar vote.ephPk keypair.sk) vote.nonce limbs
  let ballot ← ballotOf plain
  let (proof, recorded) ← recordVote H st ballot
  let arrays :=
    { recorded.arrays with
      noAux := recorded.arrays.noAux ++ [if proof.isOld0 then 1 else 0]
      auxKey := recorded.arrays.auxKey ++ [proof.oldKey]
      auxValue := recorded.arrays.auxValue ++ [proof.oldValue]
      siblings := recorded.arrays.siblings ++ [proof.siblings]
      choiceOld := recorded.arrays.choiceOld ++ [st.choiceOld ballot]
      revotingKeyOld := recorded.arrays.revotingKeyOld ++ [st.revotingOld ballot]
      ephPk := recorded.arrays.ephPk ++ [vote.ephPk]
      nonce := recorded.arrays.nonce ++ [(vote.nonce : Fr)]
      ciphertext := recorded.arrays.ciphertext ++ [vote.ciphertext] }
  let msgHash ← poseidon H vote.preimage
  let runningMsgHash ← poseidon H [recorded.runningMsgHash, msgHash]
  return { recorded with arrays, runningMsgHash }

def restoreLeaf (mt : lib.Tree) (entry : Nat × LeafData) : Except JsError lib.Tree :=
  match lib.add mt entry.1 entry.2.hash with
  | .ok mt => .ok mt
  | .error .entryIndexAlreadyExists => do
      let (_, mt) ← lib.update mt entry.1 entry.2.hash
      return mt
  | .error e => .error e

variable (lib)

def openStore (store : Option TallyStore) : Except JsError (TallyLoop lib) := do
  let mt ← ((store.map fun s => s.leaves.objectEntries).getD []).foldlM restoreLeaf lib.empty
  let runningMsgHash ← ((store.map fun s => bigIntHex s.runningMsgHashHex).getD (.ok 0))
  return { mt, runningMsgHash
           tallyCounts := (store.map TallyStore.tallyCounts).getD (List.replicate poll.choices 0)
           leavesMap := (store.map TallyStore.leaves).getD .empty
           arrays := .ofRows [] }

def pushLast {A : Type} (xs : List A) : List A := xs ++ xs.getLast?.toList

def padOnce (a : TallyArrays) : TallyArrays where
  ephPk := pushLast a.ephPk
  nonce := pushLast a.nonce
  ciphertext := pushLast a.ciphertext
  siblings := pushLast a.siblings
  choiceOld := pushLast a.choiceOld
  revotingKeyOld := pushLast a.revotingKeyOld
  noAux := pushLast a.noAux
  auxKey := pushLast a.auxKey
  auxValue := pushLast a.auxValue
  wasLeafEmpty := pushLast a.wasLeafEmpty

-- Each turn of the `while` makes `ephPk` longer by one.
def padArrays (a : TallyArrays) : TallyArrays := padOnce^[maxBatch - a.ephPk.length] a

def countsRow (counts : List Int) : List Fr :=
  List.ofFn fun i : Fin maxChoices => ((counts[i.val]?.getD 0 : Int) : Fr)

/-- What `onTallyNext` has built when it asks for the proof. -/
structure TallyBatch where
  inputs : TallyInputs
  rootNew : Fr
  runningMsgHash : Fr
  tallySaltNew : Nat
  tallyHashNew : Fr
  tallyCounts : List Int
  leavesMap : Leaves

def check (holds : Bool) (message : String) : Except JsError Unit :=
  if holds then .ok () else .error (.error message)

/-- `onTallyNext` up to the proof, on a page of votes and eight random bytes. -/
def onTallyNext (store : Option TallyStore) (batch : List VoteOut) (saltU8b : Fin 8 → UInt8) :
    Except JsError TallyBatch := do
  check (!batch.isEmpty) "No new votes to tally"
  let opened ← openStore lib poll store
  let st ← batch.foldlM (tallyVote H cipher keypair) opened
  let tallySaltOld ← (store.map fun s => bigIntHex s.tallySaltHex).getD (.ok 0)
  let tallySaltNew := ofBytesBE (List.ofFn saltU8b)
  let tallyNew := countsRow st.tallyCounts
  let tallyHashNew ← poseidon H ((tallySaltNew : Fr) :: tallyNew)
  return {
    inputs :=
      { toTallyArrays := padArrays st.arrays
        rootOld := lib.root opened.mt
        cumulativeMsgHashOld := opened.runningMsgHash
        tallySaltOld := (tallySaltOld : Fr)
        tallySaltNew := (tallySaltNew : Fr)
        tallyOld := countsRow ((store.map TallyStore.tallyCounts).getD [])
        batchLen := (batch.length : Fr)
        tallierSk := keypair.sk }
    rootNew := lib.root st.mt
    runningMsgHash := st.runningMsgHash
    tallySaltNew, tallyHashNew
    tallyCounts := st.tallyCounts
    leavesMap := st.leavesMap }

structure Submission where
  initialTallyHash : Option Fr
  rootNew : Fr
  cumulativeMsgHashNew : Fr
  tallyHashNew : Fr
  newStore : TallyStore

def initialTallyHash (store : Option TallyStore) (built : TallyBatch) : Except JsError (Option Fr) :=
  match store with
  | none => do
      let hash ← poseidon H (built.inputs.tallySaltOld :: built.inputs.tallyOld)
      return some hash
  | some _ => .ok none

def newStore (store : Option TallyStore) (batch : List VoteOut) (built : TallyBatch) (last : VoteOut)
    (cumulativeMsgHashNewPub : Fr) : TallyStore where
  pollId := (store.map TallyStore.pollId).getD poll.pollId
  accountId := (store.map TallyStore.accountId).getD keypair.accountId
  processedAfterId := last.id
  processedCount := (store.map TallyStore.processedCount).getD 0 + batch.length
  rootHex := toHex32 built.rootNew.val
  runningMsgHashHex := toHex32 cumulativeMsgHashNewPub.val
  tallySaltHex := toHex32 built.tallySaltNew
  tallyCounts := built.tallyCounts
  leaves := built.leavesMap

/-- `onTallyNext` from the proof's public signals on. -/
def onProved (store : Option TallyStore) (batch : List VoteOut) (built : TallyBatch)
    (publicSignals : List Fr) : Except JsError Submission :=
  match publicSignals, batch.getLast? with
  | _ :: rootNewPub :: cumulativeMsgHashNewPub :: tallyHashNewPub :: _, some last => do
      check (rootNewPub = built.rootNew) "rootNew mismatch"
      check (tallyHashNewPub = built.tallyHashNew) "tallyHashNew mismatch"
      let initialTallyHash ← initialTallyHash H store built
      return {
        initialTallyHash
        rootNew := built.rootNew
        cumulativeMsgHashNew := cumulativeMsgHashNewPub
        tallyHashNew := tallyHashNewPub
        newStore := newStore poll keypair store batch built last cumulativeMsgHashNewPub }
  | _, _ => .error .typeError

theorem check_true (message : String) : check true message = .ok () := rfl

end building

end Mootvote.Frontend
