import Mootvote.Program.ZkRelayer

set_option autoImplicit false

namespace Mootvote.Program

open Shared

def mootvoteId : Address :=
  .key 2410938365417663004481568950596507546502096680808698648036333261166423678201

variable (H : IdealHash Fr) (env : Env) (signers : List Address) (l : Ledger)

structure Initialize where
  payer : Address
  admin : Address
  fee : UInt64
  feeDestination : Address

def platformConfigSpace : Nat := 1 + (32 + 32 + 8)

def initializeConfig (i : Initialize) : Outcome Ledger := do
  require (i.payer ∈ signers) .constraintSigner
  require l.platformConfig.isNone .accountAlreadyInUse
  let l ← l.fund env i.payer .platformConfig platformConfigSpace
  return { l with
    platformConfig := some { admin := i.admin, feeDestination := i.feeDestination, fee := i.fee } }

structure UpdateConfig where
  admin : Address
  newAdmin : Address
  fee : UInt64
  feeDestination : Address

def updateConfig (u : UpdateConfig) : Outcome Ledger := do
  require (u.admin ∈ signers) .constraintSigner
  let config ← load l.platformConfig
  require (config.admin = u.admin) .constraintHasOne
  return { l with
    platformConfig := some { admin := u.newAdmin, feeDestination := u.feeDestination, fee := u.fee } }

def msgLimit : UInt64 := 3

def maxPollDuration : UInt64 := 365 * 24 * 60 * 60

def nRelayers : UInt64 := 1

structure CreatePoll where
  payer : Address
  id : UInt64
  nChoices : UInt8
  descriptionUrl : String
  censusUrl : String
  tallierKey : Point
  censusRoot : Word
  votingStartTime : UInt64
  votingEndTime : UInt64
  fee : UInt64
  feeDestination : Address
  nVoters : UInt64

def addedSpace (nChoices : UInt8) (descriptionUrlLen censusUrlLen : Nat) : Nat :=
  8 * nChoices.toNat + descriptionUrlLen + censusUrlLen

def pollSpace (nChoices : UInt8) (descriptionUrl censusUrl : String) : Nat :=
  1 + (8 + 1 + 64 + 32 + 32 + 8 + 8 + 8 + 8 + 32 + 4 + 4 + 4) +
    addedSpace nChoices descriptionUrl.utf8ByteSize censusUrl.utf8ByteSize

def CreatePoll.poll (c : CreatePoll) (config : PlatformConfig) : Poll :=
  { id := c.id
    nChoices := c.nChoices
    tallierKey := c.tallierKey
    censusRoot := c.censusRoot
    cumulativeMsgHash := 0
    votingStartTime := c.votingStartTime
    votingEndTime := c.votingEndTime
    platformFee := config.fee
    fee := c.fee
    feeDestination := c.feeDestination
    descriptionUrl := c.descriptionUrl
    censusUrl := c.censusUrl
    tally := [] }

def CreatePoll.event (c : CreatePoll) (config : PlatformConfig) : CreatePollEvent :=
  { pollId := c.id
    nChoices := c.nChoices
    tallierKey := c.tallierKey
    censusRoot := c.censusRoot
    votingStartTime := c.votingStartTime
    votingEndTime := c.votingEndTime
    platformFee := config.fee
    fee := c.fee
    feeDestination := c.feeDestination
    nVoters := c.nVoters
    descriptionUrl := c.descriptionUrl
    censusUrl := c.censusUrl }

def deposit (relayerFee platformFee nVoters : UInt64) : Outcome Nat := do
  let fees ← checked (relayerFee.toNat + platformFee.toNat)
  let perRelayer ← checked (fees * msgLimit.toNat)
  let perVoter ← checked (perRelayer * nRelayers.toNat)
  checked (perVoter * nVoters.toNat)

def createPoll (c : CreatePoll) : Outcome Ledger := do
  require (c.payer ∈ signers) .constraintSigner
  let config ← load l.platformConfig
  require (l.polls c.id).isNone .accountAlreadyInUse
  let l ← l.fund env c.payer (.poll c.id) (pollSpace c.nChoices c.descriptionUrl c.censusUrl)
  let relayerConfig ← load l.relayerConfig
  require (c.nChoices > 0) .requireGtViolated
  require (c.votingEndTime > c.votingStartTime && c.votingEndTime - c.votingStartTime ≤
    maxPollDuration) .pollTooLong
  let l := l.setPoll c.id (c.poll config)
  let amount ← deposit relayerConfig.fee config.fee c.nVoters
  let l ← l.transfer c.payer (.poll c.id) amount
  let l ← ZkRelayer.createRelayerState env (.zkRelayerSigner :: signers) l mootvoteId .zkRelayerSigner
    { payer := c.payer, targetProgram := mootvoteId, stateId := c.id, msgLimit, endTime := c.votingEndTime }
  return l.emit (.createPoll (c.event config))

def votePublicInputs (poll : Poll) (msgHash relayerNuHash relayerId : Word) : List Word :=
  [msgHash, relayerNuHash, poll.censusRoot, u64ToU256 poll.id, u8ToU256 poll.nChoices, poll.tallierKey.x,
    poll.tallierKey.y, relayerId]

def voteCommon (pollId : UInt64) (message : EncryptedMessage) (proof : CompressedProof)
    (relayerNuHash relayerId : Word) (msgHashFromRelayer : Option Word) : Outcome Ledger := do
  let poll ← load (l.polls pollId)
  require (poll.votingStartTime ≤ l.clock && l.clock ≤ poll.votingEndTime) .badTime
  let msgHash ← poseidon H message.preimage
  require (msgHashFromRelayer.all fun expected => msgHash = expected) .relayerMsgHashMismatch
  let proof ← proof.decompress env
  require (env.verifyVote proof (votePublicInputs poll msgHash relayerNuHash relayerId)) .invalidProof
  let cumulativeMsgHash ← poseidon H [poll.cumulativeMsgHash, msgHash]
  let l := l.setPoll pollId { poll with cumulativeMsgHash }
  return l.emit (.vote { pollId := poll.id, message, msgHash })

structure Vote where
  payer : Address
  pollFeeDestination : Address
  pollId : UInt64
  platformFeeDestination : Address
  message : EncryptedMessage
  proof : CompressedProof

def vote (v : Vote) : Outcome Ledger := do
  require (v.payer ∈ signers) .constraintSigner
  let config ← load l.platformConfig
  let poll ← load (l.polls v.pollId)
  require (v.pollFeeDestination = poll.feeDestination) .constraintAddress
  require (v.platformFeeDestination = config.feeDestination) .constraintAddress
  let l ← l.transfer v.payer v.pollFeeDestination poll.fee.toNat
  let l ← l.transfer v.payer v.platformFeeDestination poll.platformFee.toNat
  voteCommon H env l v.pollId v.message v.proof 0 0 none

structure VoteWithRelayer where
  relayer : Address
  relayerState : Address
  pollId : UInt64
  platformFeeDestination : Address
  relayerNuHash : Word
  msgHash : Word
  relayerId : Word
  message : EncryptedMessage
  proof : CompressedProof

def voteWithRelayer (v : VoteWithRelayer) : Outcome Ledger := do
  require (v.relayer ∈ signers) .constraintSigner
  let config ← load l.platformConfig
  let poll ← load (l.polls v.pollId)
  require (v.relayerState ∈ signers) .constraintSigner
  require (v.relayerState = .relayerState mootvoteId poll.id) .constraintSeeds
  let relayerState ← load (l.relayerStates mootvoteId poll.id)
  require (v.platformFeeDestination = config.feeDestination) .constraintAddress
  let l ← l.transfer (.poll v.pollId) v.relayer relayerState.fee.toNat
  let l ← l.transfer (.poll v.pollId) v.platformFeeDestination config.fee.toNat
  voteCommon H env l v.pollId v.message v.proof v.relayerNuHash v.relayerId (some v.msgHash)

structure CreateTally where
  payer : Address
  pollId : UInt64
  initialTallyHash : Word

def tallySpace : Nat := 1 + (32 + 32 + 32)

def createTally (c : CreateTally) : Outcome Ledger := do
  require (c.payer ∈ signers) .constraintSigner
  let l ← (match l.tallies c.pollId c.payer with
    | none => l.fund env c.payer (.tally c.pollId c.payer) tallySpace
    | some _ => .ok l)
  return l.setTally c.pollId c.payer (some
    { tallyHash := c.initialTallyHash, cumulativeMsgHash := 0, root := 0 })

/-- The Tally account is any that the program owns, given by the seeds it was derived from. -/
structure TallyBatch where
  tallyPollId : UInt64
  tallyOwner : Address
  proof : CompressedProof
  rootNew : Word
  cumulativeMsgHashNew : Word
  tallyHashNew : Word

def TallyBatch.publicInputs (b : TallyBatch) (tally : TallyAccount) : List Word :=
  [tally.tallyHash, b.rootNew, b.cumulativeMsgHashNew, b.tallyHashNew, tally.root, tally.cumulativeMsgHash]

def TallyBatch.tallyNew (b : TallyBatch) : TallyAccount :=
  { tallyHash := b.tallyHashNew, cumulativeMsgHash := b.cumulativeMsgHashNew, root := b.rootNew }

def tallyBatch (b : TallyBatch) : Outcome Ledger := do
  let tally ← load (l.tallies b.tallyPollId b.tallyOwner)
  let proof ← b.proof.decompress env
  require (env.verifyTally proof (b.publicInputs tally)) .invalidProof
  return l.setTally b.tallyPollId b.tallyOwner (some b.tallyNew)

structure FinishTally where
  payer : Address
  tallyPollId : UInt64
  tallyOwner : Address
  pollId : UInt64
  tally : List UInt64
  tallySalt : UInt64

def maxChoices : Nat := 11

def FinishTally.preimage (f : FinishTally) (zeros : Nat) : List Word :=
  u64ToU256 f.tallySalt :: f.tally.map u64ToU256 ++ List.replicate zeros 0

def finishTally (f : FinishTally) : Outcome Ledger := do
  let tallyAcc ← load (l.tallies f.tallyPollId f.tallyOwner)
  let poll ← load (l.polls f.pollId)
  require (l.clock > poll.votingEndTime) .badTime
  require (f.tally.length = poll.nChoices.toNat) .incorrectTally
  require (tallyAcc.cumulativeMsgHash = poll.cumulativeMsgHash) .incorrectTally
  let zeros ← checkedSub maxChoices poll.nChoices.toNat
  let tallyHash ← poseidon H (f.preimage zeros)
  require (tallyHash = tallyAcc.tallyHash) .incorrectTally
  let l := l.setPoll f.pollId { poll with tally := f.tally }
  let l := l.emit (.finishTally { pollId := poll.id, tally := f.tally })
  l.closeTallyAccount f.tallyPollId f.tallyOwner f.payer

structure CloseTally where
  owner : Address
  pollId : UInt64

def closeTally (c : CloseTally) : Outcome Ledger := do
  let _ ← load (l.tallies c.pollId c.owner)
  l.closeTallyAccount c.pollId c.owner c.owner

structure WithdrawPoll where
  feeDestination : Address
  pollId : UInt64

def withdrawPoll (w : WithdrawPoll) : Outcome Ledger := do
  let poll ← load (l.polls w.pollId)
  require (poll.feeDestination = w.feeDestination) .constraintHasOne
  require (l.clock ≥ poll.votingEndTime) .badTime
  let rent := env.minimumBalance (pollSpace poll.nChoices poll.descriptionUrl poll.censusUrl)
  let amount ← checkedSub (l.lamports (.poll w.pollId)) rent
  l.transfer (.poll w.pollId) w.feeDestination amount

inductive Instruction where
  | initializeConfig (i : Initialize)
  | updateConfig (u : UpdateConfig)
  | createPoll (c : CreatePoll)
  | vote (v : Vote)
  | voteWithRelayer (v : VoteWithRelayer)
  | createTally (c : CreateTally)
  | tallyBatch (b : TallyBatch)
  | finishTally (f : FinishTally)
  | closeTally (c : CloseTally)
  | withdrawPoll (w : WithdrawPoll)

def Instruction.execute : Instruction → Outcome Ledger
  | .initializeConfig i => Program.initializeConfig env signers l i
  | .updateConfig u => Program.updateConfig signers l u
  | .createPoll c => Program.createPoll env signers l c
  | .vote v => Program.vote H env signers l v
  | .voteWithRelayer v => Program.voteWithRelayer H env signers l v
  | .createTally c => Program.createTally env signers l c
  | .tallyBatch b => Program.tallyBatch env l b
  | .finishTally f => Program.finishTally H l f
  | .closeTally c => Program.closeTally l c
  | .withdrawPoll w => Program.withdrawPoll env l w

end Mootvote.Program
