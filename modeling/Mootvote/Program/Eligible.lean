import Mootvote.Helpers.Bn254
import Mootvote.Helpers.MerkleTree
import Mootvote.Program.Phases

set_option autoImplicit false

namespace Mootvote.Program

open Shared CompleteTree Helpers Bn254

section inclusion

variable {H : IdealHash Fr} {hashes : List Fr → Fr} {n : Nat} {leafs : List Int}

def censusNode (hashes : List Fr → Fr) (leafs : List Int) (level index : Nat) : Fr :=
  (hashNode hashes (fun i => leafs[i]?.getD (Helpers.poseidon hashes [0])) level index : Int)

structure CensusHashed (H : IdealHash Fr) (hashes : List Fr → Fr) (depth : Nat)
    (leafs : List Int) : Prop where
  missing : H.hash [0] = some (hashes [0])
  nodes : ∀ k i, k < depth → i < 2 ^ (depth - k - 1) →
    H.hash [censusNode hashes leafs k (2 * i), censusNode hashes leafs k (2 * i + 1)] =
      some (censusNode hashes leafs (k + 1) i)

theorem getMerkleRoot_eq {root : Int} (isRoot : getMerkleRoot hashes n leafs = some root)
    (small : leafs.length < 2 ^ 31 - 1) : (root : Fr) = censusNode hashes leafs n 0 := by
  have reached : AtLevel hashes (fun i => leafs[i]?.getD (Helpers.poseidon hashes [0])) 0 leafs :=
    ⟨small, fun _ => rfl⟩
  cases leafs with
  | nil => simp [getMerkleRoot] at isRoot
  | cons leaf rest =>
      have loop := rootLoop_spec n reached
      rw [Nat.zero_add] at loop
      simp only [getMerkleRoot, List.getElem?_cons_zero, Option.bind_eq_bind, Option.bind_some] at isRoot
      have same := isRoot.symm.trans loop
      rw [Option.some.injEq] at same
      rw [same]
      rfl

/-- The leaf of a proof that the template accepts stands in the census tree. -/
theorem inclusion_sound (hashed : CensusHashed H hashes n leafs) {m : MerkleTreeInclusionProof n}
    (constraints : m.Constraints H (censusNode hashes leafs n 0)) :
    ∃ i, i < 2 ^ n ∧ m.leaf = censusNode hashes leafs 0 i ∧
      ∀ k : Fin n, m.pathIndices k = if i.testBit k then 1 else 0 := by
  let bits (k : Nat) : Bool := if inside : k < n then decide (m.pathIndices ⟨k, inside⟩ = 1) else false
  let element (k : Nat) : Fr := if inside : k < n then m.pathElements ⟨k, inside⟩ else 0
  let level (k : Nat) : Fr := if inside : k < n + 1 then m.level ⟨k, inside⟩ else 0
  have position (k : Fin n) : m.pathIndices k = if bits k then 1 else 0 := by
    have : Fact scalarModulus.Prime := ⟨prime_scalarModulus⟩
    have binary := constraints.binary k
    have side : bits k = decide (m.pathIndices k = 1) := dif_pos k.isLt
    rcases mul_eq_zero.1 binary with left | right
    · rw [side, left]
      simp
    · rw [side, ← sub_eq_zero.1 right]
      simp
  have climbs : ∀ k < n, if bits k then H.hash [element k, level k] = some (level (k + 1))
      else H.hash [level k, element k] = some (level (k + 1)) := by
    intro k inside
    have hashed := constraints.level ⟨k, inside⟩
    rw [position] at hashed
    have here : level k = m.level (Fin.castSucc ⟨k, inside⟩) := dif_pos (by omega)
    have above : level (k + 1) = m.level (Fin.succ ⟨k, inside⟩) := dif_pos (by omega)
    have beside : element k = m.pathElements ⟨k, inside⟩ := dif_pos inside
    rw [here, above, beside]
    cases side : bits k with
    | false => simpa [muxSwap, side] using hashed
    | true => simpa [muxSwap, side] using hashed
  have injective {x y x' y' z : Fr} (left : H.hash [x, y] = some z) (right : H.hash [x', y'] = some z) :
      x = x' ∧ y = y' := by
    have same := H.injective left right
    simpa using same
  have root : level n = censusNode hashes leafs n 0 := by
    rw [← constraints.root]
    exact dif_pos (by omega)
  have bottom := @path_binds Fr (fun x y z => H.hash [x, y] = some z) _ level element bits n injective
    hashed.nodes climbs root n 0 (Nat.zero_add n)
  refine ⟨spelled bits n 0, spelled_lt _ _ _, ?_, fun k => ?_⟩
  · have leaf : level 0 = m.level 0 := dif_pos (Nat.succ_pos n)
    rw [← bottom, ← constraints.leaf, leaf]
  · rw [position, testBit_spelled _ _ k.isLt, Nat.zero_add]

/-- A pair of coordinates that is included is the key of a member: no missing leaf is the hash of a pair. -/
theorem inclusion_member (hashed : CensusHashed H hashes n leafs) {m : MerkleTreeInclusionProof n}
    (constraints : m.Constraints H (censusNode hashes leafs n 0)) {x y : Fr}
    (isLeaf : H.hash [x, y] = some m.leaf) :
    ∃ (i : Nat) (leaf : Int), leafs[i]? = some leaf ∧ (leaf : Fr) = m.leaf := by
  obtain ⟨i, _, same, _⟩ := inclusion_sound hashed constraints
  cases found : leafs[i]? with
  | some leaf =>
      refine ⟨i, leaf, found, ?_⟩
      rw [same, censusNode, hashNode, node, found]
      rfl
  | none =>
      have missing : m.leaf = hashes [0] := by
        rw [same, censusNode, hashNode, node, found, Option.getD_none, Helpers.poseidon, Int.cast_natCast,
          ZMod.natCast_zmod_val]
        simp
      rw [missing] at isLeaf
      have shapes := H.injective isLeaf hashed.missing
      simp at shapes

end inclusion

section votes

variable {H : IdealHash Fr} {G : Gadgets H} {A : Type} [AddCommGroup A] {C : BabyJub A}
  {depth : Nat} {env : Env}

def SoundVotes (C : BabyJub A) (G : Gadgets H) (depth : Nat) (env : Env) : Prop :=
  ∀ proof inputs, env.verifyVote proof inputs = true →
    ∃ w : Mootvote.Vote A depth, w.Constraints C G ∧ (w.publicSignals C).map Word.ofFr = inputs

structure CastBy (C : BabyJub A) (G : Gadgets H) (poll : Poll) (message : EncryptedMessage)
    (w : Mootvote.Vote A depth) : Prop where
  constraints : w.Constraints C G
  message : Encodes (w.message C) message
  censusRoot : Word.ofFr w.censusRoot = poll.censusRoot
  pollId : Word.ofFr w.pollId = u64ToU256 poll.id
  nChoices : Word.ofFr w.nChoices = u8ToU256 poll.nChoices
  tallierX : Word.ofFr (C.coords w.tallierPk).1 = poll.tallierKey.x
  tallierY : Word.ofFr (C.coords w.tallierPk).2 = poll.tallierKey.y

theorem CastBy.of_terms {poll poll' : Poll} {message : EncryptedMessage} {w : Mootvote.Vote A depth}
    (cast : CastBy C G poll message w) (same : poll'.terms = poll.terms) : CastBy C G poll' message w := by
  simp only [Poll.terms, Poll.mk.injEq] at same
  obtain ⟨id, nChoices, tallierKey, censusRoot, _⟩ := same
  refine ⟨cast.constraints, cast.message, ?_, ?_, ?_, ?_, ?_⟩
  · rw [censusRoot, cast.censusRoot]
  · rw [id, cast.pollId]
  · rw [nChoices, cast.nChoices]
  · rw [tallierKey, cast.tallierX]
  · rw [tallierKey, cast.tallierY]

def Verified (H : IdealHash Fr) (env : Env) (poll : Poll) (message : EncryptedMessage) : Prop :=
  ∃ msgHash opened relayerNuHash relayerId, (wordHash H).hash message.preimage = some msgHash ∧
    env.verifyVote opened (votePublicInputs poll msgHash relayerNuHash relayerId) = true

theorem Verified.castBy {poll : Poll} {message : EncryptedMessage} (sound : SoundVotes C G depth env)
    (verified : Verified H env poll message) : ∃ w : Mootvote.Vote A depth, CastBy C G poll message w := by
  obtain ⟨msgHash, opened, relayerNuHash, relayerId, hashed, accepted⟩ := verified
  obtain ⟨w, constraints, inputs⟩ := sound _ _ accepted
  simp only [Vote.publicSignals, votePublicInputs, List.map_cons, List.map_nil, List.cons.injEq] at inputs
  obtain ⟨sameHash, _, censusRoot, pollId, nChoices, tallierX, tallierY, _⟩ := inputs
  refine ⟨w, constraints, ?_, censusRoot, pollId, nChoices, tallierX, tallierY⟩
  have circuit := wordHash_ofFr H (w.message C).preimage
  rw [constraints.msgHash, Option.map_some, sameHash] at circuit
  exact Encodes.iff_preimage.2 ((wordHash H).injective circuit hashed)

theorem Instruction.verified {signers : List Address} {l l' : Ledger} {i : Instruction} {id : UInt64}
    {message : EncryptedMessage} (done : i.execute H env signers l = .ok l')
    (member : message ∈ i.accepted id) :
    ∃ poll, l.polls id = some poll ∧ Verified H env poll message := by
  have common {l₀ : Ledger} {pollId : UInt64} {sent : EncryptedMessage} {proof : CompressedProof}
      {relayerNuHash relayerId : Word} {expected : Option Word} (polls : l₀.polls = l.polls)
      (voted : voteCommon H env l₀ pollId sent proof relayerNuHash relayerId expected = .ok l')
      (member : message ∈ if pollId = id then [sent] else []) :
      ∃ poll, l.polls id = some poll ∧ Verified H env poll message := by
    obtain ⟨poll, msgHash, opened, _, found, _, hashed, _, _, verified, _⟩ := voteCommon_ok_iff.1 voted
    split_ifs at member with own
    · obtain rfl := List.mem_singleton.1 member
      exact ⟨poll, by rw [← own, ← polls, found], msgHash, opened, relayerNuHash, relayerId, hashed, verified⟩
    · cases member
  cases i with
  | vote v =>
      simp only [execute, Program.vote, bind_ok_iff, require_ok_iff, decide_eq_true_eq] at done
      obtain ⟨_, _, _, _, _, _, _, _, _, _, l₁, paidPoll, l₂, paidPlatform, voted⟩ := done
      have records := (Ledger.transfer_paid paidPlatform).1.trans (Ledger.transfer_paid paidPoll).1
      exact common (congrArg Records.polls records) voted member
  | voteWithRelayer v =>
      simp only [execute, Program.voteWithRelayer, bind_ok_iff, load_ok_iff, require_ok_iff,
        decide_eq_true_eq] at done
      obtain ⟨_, _, _, _, _, _, _, _, _, _, _, _, _, _, l₁, paidRelayer, l₂, paidPlatform, voted⟩ := done
      have records := (Ledger.transfer_paid paidPlatform).1.trans (Ledger.transfer_paid paidRelayer).1
      exact common (congrArg Records.polls records) voted member
  | _ => cases member

theorem Step.verified {l l' : Ledger} {e : Applied} {id : UInt64} {message : EncryptedMessage}
    (step : Step H env l e l') (member : message ∈ e.tx.accepted id) :
    ∃ poll, l.polls id = some poll ∧ Verified H env poll message := by
  have done := step.done
  unfold Tx.execute at done
  unfold Tx.accepted at member
  generalize e.tx.call = call at done member
  cases call with
  | mootvote i =>
      obtain ⟨poll, found, verified⟩ := Instruction.verified done member
      exact ⟨poll, found, verified⟩
  | relay q =>
      obtain ⟨_, _, _, _, called, _⟩ := ZkRelayer.relay_ok_iff.1 done
      obtain ⟨poll, found, verified⟩ := Instruction.verified called member
      exact ⟨poll, found, verified⟩
  | initializeRelayer | updateRelayer | createRelayerState | systemTransfer => cases member

theorem cast_run (sound : SoundVotes C G depth env) {clock : UInt64} {lamports : Address → Nat}
    {es : List Applied}
    {l : Ledger} (run : Steps (Step H env) (genesis clock lamports) es l) {id : UInt64}
    {message : EncryptedMessage} (member : message ∈ accepted es id) :
    ∃ poll, l.polls id = some poll ∧ ∃ w : Mootvote.Vote A depth, CastBy C G poll message w := by
  have invariant := run.invariant (I := fun past mid => ∀ message ∈ accepted past id,
    ∃ poll, mid.polls id = some poll ∧ ∃ w : Mootvote.Vote A depth, CastBy C G poll message w) ?_ ?_
  · exact invariant message member
  · intro message member
    cases member
  · intro past mid e mid' _ earlier step message member
    rw [accepted_snoc, List.mem_append] at member
    have before : ∃ poll, mid.polls id = some poll ∧
      ∃ w : Mootvote.Vote A depth, CastBy C G poll message w := by
      rcases member with old | new
      · exact earlier message old
      · obtain ⟨poll, found, verified⟩ := step.verified new
        exact ⟨poll, found, verified.castBy sound⟩
    obtain ⟨poll, found, w, cast⟩ := before
    obtain ⟨poll', found', terms, _⟩ := step.keeps_poll found
    exact ⟨poll', found', w, cast.of_terms terms⟩

/-- In a poll over a census, every accepted message was cast by the key of a member. -/
theorem only_members_vote (sound : SoundVotes C G depth env) {hashes : List Fr → Fr}
    {leafs : List Int} {root : Int}
    (hashed : CensusHashed H hashes depth leafs) (isRoot : getMerkleRoot hashes depth leafs = some root)
    (small : leafs.length < 2 ^ 31 - 1) {clock : UInt64} {lamports : Address → Nat} {es : List Applied}
    {l : Ledger} (run : Steps (Step H env) (genesis clock lamports) es l) {id : UInt64} {poll : Poll}
    (found : l.polls id = some poll) (census : poll.censusRoot = Word.ofFr root) :
    ∀ message ∈ accepted es id, ∃ w : Mootvote.Vote A depth, CastBy C G poll message w ∧
      ∃ (i : Nat) (leaf : Int), leafs[i]? = some leaf ∧
        H.hash [(C.coords w.voterPk).1, (C.coords w.voterPk).2] = some (leaf : Fr) := by
  intro message member
  obtain ⟨poll', found', w, cast⟩ := cast_run sound run member
  cases found'.symm.trans found
  refine ⟨w, cast, ?_⟩
  have same : w.censusRoot = censusNode hashes leafs depth 0 := by
    rw [← getMerkleRoot_eq isRoot small]
    exact Word.ofFr_injective (cast.censusRoot.trans census)
  have included := cast.constraints.inclusion
  rw [same] at included
  obtain ⟨i, leaf, there, equal⟩ := inclusion_member hashed included cast.constraints.voterLeaf
  refine ⟨i, leaf, there, ?_⟩
  rw [equal]
  exact cast.constraints.voterLeaf

end votes

namespace OneMember

def table : List (List Fr × Fr) :=
  [([platformName, 9], 20), ([2, 0, baseX, baseY, 20], 1), ([10, 2, 0], 21), ([21], 23), ([0], 25), ([6], 26),
    ([baseX, baseY, 0, 23, 1, 25, 26, 0, 0, 0], 27), ([21, 0], 29), ([29, 27], 31), ([baseX, baseY], 400),
    ([400, 25], 500), ([0, 27], 600)]

def hash : IdealHash Fr := .ofTable table (by decide +kernel) (by decide +kernel)

def gadgets : Gadgets hash :=
  .documented hash (fun _ pk => pk) fun _ _ ciphertext decrypted => ∀ i, decrypted i = ciphertext i.castSucc

def witness : Mootvote.Vote (ZMod subgroupOrder) 1 :=
  { TwoSignatures.first with
    censusRoot := 500, path := ![25], pathPos := ![0], level := ![400, 500] }

theorem witness_inclusion : witness.inclusion.Constraints hash witness.censusRoot where
  leaf := by decide +kernel
  binary := by decide +kernel
  level := by decide +kernel
  root := by decide +kernel

theorem witness_constraints : witness.Constraints TwoSignatures.curve gadgets where
  voterLeaf := by decide +kernel
  inclusion := witness_inclusion
  signedHash := by decide +kernel
  signature := ⟨⟨by decide +kernel, by decide +kernel⟩, by decide +kernel⟩
  sigValid := by decide +kernel
  sigHash := by decide +kernel
  revotingKeyNewNonzero := by decide +kernel
  revotingKeyNewFresh := by decide +kernel
  nu := by decide +kernel
  inRange := ⟨by decide +kernel, by decide +kernel⟩
  ephSkBits := ⟨by decide +kernel, by decide +kernel⟩
  plaintextNu := rfl
  plaintextChoice := rfl
  plaintextOld := by decide +kernel
  plaintextNew := by decide +kernel
  decrypt := by
    change ∀ i : Fin pad, _ = _
    decide +kernel
  decrypted := by decide +kernel
  msgHash := by decide +kernel
  relayerNu := by decide +kernel
  relayerNuHashRaw := by decide +kernel
  relayerNuHash := by decide +kernel

def env : Env :=
  { OneVoter.env with
    verifyVote := fun _ inputs => inputs = (witness.publicSignals TwoSignatures.curve).map Word.ofFr }

theorem soundVotes : SoundVotes TwoSignatures.curve gadgets 1 env := by
  intro _ _ verified
  exact ⟨witness, witness_constraints, (of_decide_eq_true verified).symm⟩

def message : EncryptedMessage :=
  { ephPk := ⟨Word.ofFr baseX, Word.ofFr baseY⟩, nonce := 0, ciphertext := ![23, 1, 25, 26, 0, 0, 0] }

def setup : List Tx :=
  OneVoter.setup.take 2 ++
    [OneVoter.sign 0 (.mootvote (.createPoll
      { payer := OneVoter.payer, id := 9, nChoices := 2, descriptionUrl := "", censusUrl := ""
        tallierKey := ⟨Word.ofFr baseX, Word.ofFr baseY⟩, censusRoot := 500
        votingStartTime := 1, votingEndTime := 10, fee := 0, feeDestination := OneVoter.payer,
          nVoters := 1 })),
      OneVoter.sign 5 (.mootvote (.vote
      { payer := OneVoter.payer, pollFeeDestination := OneVoter.payer, pollId := 9
        platformFeeDestination := OneVoter.payer, message, proof := OneVoter.proof }))]

def hashes (xs : List Fr) : Fr := (hash.hash xs).getD 0

theorem censusHashed : CensusHashed hash hashes 1 [400] where
  missing := by decide +kernel
  nodes := by
    intro k i level index
    obtain rfl : k = 0 := by omega
    obtain rfl : i = 0 := by omega
    decide +kernel

def ended : Option (Word × List EncryptedMessage) :=
  match replay hash env (genesis 0 OneVoter.lamports) setup with
  | .error _ => none
  | .ok l => (l.polls 9).map fun poll => (poll.censusRoot, (voteEvents l.events 9).map VoteEvent.message)

theorem ended_eq : ended = some (Word.ofFr (500 : Fr), [message]) := by decide +kernel

theorem only_members_vote_one : ∃ es l poll, Steps (Step hash env) (genesis 0 OneVoter.lamports) es l ∧
    l.polls 9 = some poll ∧ accepted es 9 = [message] ∧
    ∀ message ∈ accepted es 9, ∃ w : Mootvote.Vote (ZMod subgroupOrder) 1,
      CastBy TwoSignatures.curve gadgets poll message w ∧ ∃ (i : Nat) (leaf : Int), [400][i]? = some leaf ∧
        hash.hash [(TwoSignatures.curve.coords w.voterPk).1, (TwoSignatures.curve.coords w.voterPk).2] =
          some (leaf : Fr) := by
  have outcome := ended_eq
  unfold ended at outcome
  cases done : replay hash env (genesis 0 OneVoter.lamports) setup with
  | error e =>
      rw [done] at outcome
      cases outcome
  | ok l =>
      rw [done] at outcome
      obtain ⟨es, run, txs⟩ := replay_steps done
      cases found : l.polls 9 with
      | none => simp [found] at outcome
      | some poll =>
          simp only [found, Option.map_some, Option.some.injEq, Prod.mk.injEq] at outcome
          refine ⟨es, l, poll, run, found, ?_, ?_⟩
          · rw [← (Logged.of_run run).messages 9]
            exact outcome.2
          · have isRoot : getMerkleRoot hashes 1 [400] = some 500 := by decide +kernel
            exact only_members_vote soundVotes censusHashed isRoot (by decide) run found outcome.1

end OneMember

end Mootvote.Program
