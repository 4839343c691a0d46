import Mootvote.Circom.SmtTemplates
import Mootvote.Frontend.TallyNext

set_option autoImplicit false

/-!
# Batch after batch

Every store that the tallier can have comes from its earlier batches.
-/

namespace Mootvote.Frontend

open Shared SparseMerkle Indexer

section batches

variable {H : IdealHash Fr} {G : Gadgets H} {lib : Merkletree} {tree : lib.Tree → SparseTree Fr}
  {poll : PollDetail} {keypair : Keypair} {cipher : Cipher} {store : Option TallyStore} {batch : List VoteOut}
  {ballots : List Ballot}

/-- The stores that a tallier can have. -/
inductive Produced (G : Gadgets H) (lib : Merkletree) (cipher : Cipher) (poll : PollDetail)
    (keypair : Keypair) :
    Option TallyStore → Prop
  | fresh : Produced G lib cipher poll keypair none
  | next {store : Option TallyStore} {batch : List VoteOut} {ballots : List Ballot} {saltU8b : Fin 8 → UInt8}
      {built : TallyBatch} {w : Tally stateDepth maxChoices maxBatch} {sub : Submission}
      (before : Produced G lib cipher poll keypair store)
      (shows_ : Shows cipher keypair poll.choices batch ballots)
      (done : onTallyNext H lib cipher poll keypair store batch saltU8b = .ok built)
      -- The prover's assignment.
      (constraints : w.Constraints G) (hints : w.Hints) (given : w.inputs = built.inputs)
      (proved : onProved H poll keypair store batch built w.publicSignals = .ok sub) :
      Produced G lib cipher poll keypair (some sub.newStore)

theorem Produced.kept (correct : lib.Correct H stateDepth tree) (complete : G.Complete)
    (agrees : cipher.Agrees G)
    (isHash0 : H.hash [0] = some hash0) (produced : Produced G lib cipher poll keypair store) :
    ∀ s ∈ store, s.Kept H poll.choices := by
  induction produced with
  | fresh => simp
  | next _ shows_ done constraints hints given proved ih =>
      obtain ⟨opened, st, labels, saltOld, made⟩ := onTallyNext_ok correct isHash0 ih shows_ done
      obtain ⟨sub, submitted, _, _, kept⟩ := made.proved correct complete agrees isHash0
        constraints hints given
      rw [proved, Except.ok.injEq] at submitted
      subst submitted
      simpa using kept

/-- The inputs satisfy the circuit, and whatever it assigns on them is what the browser expects and keeps. -/
structure TallyBatch.InCircuit (built : TallyBatch) (G : Gadgets H) (poll : PollDetail) (keypair : Keypair)
    (store : Option TallyStore) (batch : List VoteOut) (ballots : List Ballot) : Prop where
  satisfied : CircuitHashes H store batch ballots built →
    ∃ w : Tally stateDepth maxChoices maxBatch, w.Constraints G ∧ w.Hints ∧ w.inputs = built.inputs
  outputs : ∀ w : Tally stateDepth maxChoices maxBatch, w.Constraints G → w.Hints → w.inputs = built.inputs →
    w.rootNew = built.rootNew ∧ w.cumulativeMsgHashNew = built.runningMsgHash ∧
      w.tallyHashNew = built.tallyHashNew ∧
      ∃ sub, onProved H poll keypair store batch built w.publicSignals = .ok sub ∧
        sub.initialTallyHash = (if store.isNone then some w.tallyHashOld else none) ∧
        sub.newStore.leaves = built.leavesMap
  tally : H.hash ((built.tallySaltNew : Fr) :: countsRow built.tallyCounts) = some built.tallyHashNew
  state : ∃ t : SparseTree Fr, t.Shaped (stateDepth - 1) ∧ t.commit H = some built.rootNew ∧
    Tracks H built.leavesMap.book t

theorem onTallyNext_in_circuit (correct : lib.Correct H stateDepth tree) (complete : G.Complete)
    (agrees : cipher.Agrees G) (isHash0 : H.hash [0] = some hash0)
    (produced : Produced G lib cipher poll keypair store)
    (shows_ : Shows cipher keypair poll.choices batch ballots) (nonempty : batch ≠ [])
    (fits : batch.length ≤ maxBatch) (saltU8b : Fin 8 → UInt8) :
    match onTallyNext H lib cipher poll keypair store batch saltU8b with
    | .ok built => built.InCircuit G poll keypair store batch ballots
    | .error e => (∃ inputs, e = .poseidon inputs ∧ H.hash inputs = none) ∨
        -- Leaves that share all but the last bit of their paths do not fit in the tree.
        e = .reachedMaxLevel ∧ ¬ Apart (storedIndices store ++ ballots.map leafIdx) := by
  have kept := produced.kept correct complete agrees isHash0
  split
  · next built done =>
      obtain ⟨opened, st, labels, saltOld, made⟩ := onTallyNext_ok correct isHash0 kept shows_ done
      refine ⟨fun hashes => made.satisfied complete agrees isHash0 kept fits hashes, ?_, made.hashed,
        _, made.state correct⟩
      intro w constraints hints given
      obtain ⟨root, digest, tally⟩ := made.outputs complete agrees isHash0 constraints hints given
      obtain ⟨sub, submitted, initial, leaves, _⟩ :=
        made.proved correct complete agrees isHash0 constraints hints given
      exact ⟨root, digest, tally, sub, submitted, initial, leaves⟩
  · next e failed => exact onTallyNext_error correct isHash0 kept shows_ nonempty failed

end batches

namespace FirstBatch

def table : List (List Fr × Fr) :=
  [([0], hash0), ([0, hash0], 101), ([1, 7], 102), ([2, 8], 108),
    ([1, 2, 30, 5, 1, hash0, 7, 0, 0, 0], 103), ([1, 2, 31, 5, 2, hash0, 8, 0, 0, 0], 104),
    ([0, 103], 105), ([105, 104], 106), ([106, 104], 112), ([5, 102, 1], 107),
    ([0, 0, 0, 0, 0, 0, 0, 0, 0, 0, 0, 0], 110), ([9, 1, 0, 0, 0, 0, 0, 0, 0, 0, 0, 0], 111)]

def hash : IdealHash Fr := .ofTable table (by decide +kernel) (by decide +kernel)

def gadgets : Gadgets hash :=
  .circomlib hash (fun _ pk => pk) fun _ _ ciphertext decrypted => ∀ i, decrypted i = ciphertext i.castSucc

-- No encryption: the first words are the limbs.
def cipher : Cipher where
  mulPointEscalar pk _ := pk
  poseidonDecrypt ciphertext _ _ n :=
    if ciphertext.length = ctLen then .ok (ciphertext.take n) else .error (.error "bad length")

theorem cipher_agrees : cipher.Agrees gadgets where
  ecdh _ _ := rfl
  poseidonDecrypt key nonce ciphertext plain := by
    have opened : cipher.poseidonDecrypt (List.ofFn ciphertext) key nonce limbs =
        .ok [ciphertext 0, ciphertext 1, ciphertext 2, ciphertext 3] := by
      simp [cipher, ctLen, limbs, List.ofFn_succ]
      rfl
    rw [opened, Except.ok.injEq]
    constructor
    · rintro rfl
      exact ⟨fun i => ciphertext i.castSucc, fun _ => rfl, rfl⟩
    · rintro ⟨decrypted, same, rfl⟩
      rw [same 0, same 1, same 2, same 3]
      rfl

def poll : PollDetail := { pollId := 1, choices := 2 }

def keypair : Keypair := { sk := 6, pub := (3, 4) }

def row (id nonce : UInt64) (words : List Nat) : VoteOut where
  id
  ephX := toHex32 1
  ephY := toHex32 2
  nonce
  ciphertext := hexEncode (words.flatMap (bytesBE 32))

def votes : List VoteOut := [row 1 30 [5, 1, hash0.val, 7, 0, 0, 0], row 2 31 [5, 2, hash0.val, 8, 0, 0, 0]]

def ballots : List Ballot :=
  [{ nu := 5, choice := 1, revotingKeyOld := hash0, revotingKeyNew := 7 },
    { nu := 5, choice := 2, revotingKeyOld := hash0, revotingKeyNew := 8 }]

def entered (nonce : Nat) (words : List Nat) : ReadVote := { r := (1, 2), nonce, ctWords := words }

theorem shows_ballots : Shows cipher keypair poll.choices votes ballots :=
  .cons ⟨entered 30 [5, 1, hash0.val, 7, 0, 0, 0], by decide +kernel,
    rfl, by decide +kernel, by decide +kernel⟩
    (.cons ⟨entered 31 [5, 2, hash0.val, 8, 0, 0, 0], by decide +kernel,
      rfl, by decide +kernel, by decide +kernel⟩
      .nil)

def salt : Fin 8 → UInt8 := fun i => if i = 7 then 9 else 0

theorem built_hashes {built : TallyBatch} (digest : built.runningMsgHash = 106) :
    CircuitHashes hash none votes ballots built where
  noVote := ⟨101, by decide +kernel⟩
  noTally _ := ⟨110, by decide +kernel⟩
  leaves := by
    simp only [ballots, List.forall_mem_cons]
    exact ⟨⟨102, by decide +kernel⟩, ⟨108, by decide +kernel⟩, by simp⟩
  idle _ v last vote msgHash read hashed := by
    cases Option.mem_def.1 last
    have isVote : readVote (row 2 31 [5, 2, hash0.val, 8, 0, 0, 0]) =
      some (entered 31 [5, 2, hash0.val, 8, 0, 0, 0]) :=
      by decide +kernel
    have isHash : hash.hash (entered 31 [5, 2, hash0.val, 8, 0, 0, 0]).preimage = some 104 := by
      decide +kernel
    cases read.symm.trans isVote
    cases hashed.symm.trans isHash
    exact ⟨112, by rw [digest]; decide +kernel⟩

theorem exists_built : ∃ built,
    onTallyNext hash (.kept hash stateDepth) cipher poll keypair none votes salt = .ok built ∧
      built.tallyCounts = [1, 0] ∧ built.runningMsgHash = 106 := by
  have evaluated : (match onTallyNext hash (.kept hash stateDepth) cipher poll keypair none votes salt with
      | .ok built => decide (built.tallyCounts = [1, 0] ∧ built.runningMsgHash = 106)
      | .error _ => false) = true := by decide +kernel
  split at evaluated
  · next built done => exact ⟨built, done, of_decide_eq_true evaluated⟩
  · cases evaluated

set_option maxRecDepth 4000 in
theorem onTallyNext_in_circuit_first : ∃ built,
    onTallyNext hash (.kept hash stateDepth) cipher poll keypair none votes salt = .ok built ∧
      built.tallyCounts = [1, 0] ∧
      built.InCircuit gadgets poll keypair none votes ballots ∧
      ∃ w : Tally stateDepth maxChoices maxBatch, w.Constraints gadgets ∧ w.Hints ∧
      w.inputs = built.inputs := by
  obtain ⟨built, done, counts, digest⟩ := exists_built
  have isHash0 : hash.hash [0] = some hash0 := by decide +kernel
  have correct := Merkletree.kept_correct hash (show 0 < stateDepth by decide) (by decide)
  have complete : gadgets.Complete := Gadgets.circomlib_complete _ _ _
  have inCircuit := onTallyNext_in_circuit correct complete cipher_agrees isHash0 .fresh shows_ballots
    (List.cons_ne_nil _ _) (show 2 ≤ maxBatch by decide) salt
  rw [done] at inCircuit
  exact ⟨built, done, counts, inCircuit, inCircuit.satisfied (built_hashes digest)⟩

end FirstBatch

end Mootvote.Frontend
