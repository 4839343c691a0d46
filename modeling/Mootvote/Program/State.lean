import Mootvote.Circom.Relay
import Mootvote.Circom.Words
import Mootvote.Shared.Fallible

set_option autoImplicit false

namespace Mootvote.Program

open Shared SparseMerkle

/-- Account addresses: a program derives its own from seeds, and no two seeds share an address. -/
inductive Address where
  | key (bytes : Word)
  | platformConfig
  | poll (id : UInt64)
  | tally (pollId : UInt64) (owner : Address)
  | zkRelayerSigner
  | relayerConfig
  | relayerState (targetProgram : Address) (stateId : UInt64)
deriving DecidableEq

structure Point where
  x : Word
  y : Word
deriving DecidableEq

structure CompressedProof where
  a : Word
  b : BitVec 512
  c : Word
deriving DecidableEq

structure Proof where
  a : BitVec 512
  b : BitVec 1024
  c : BitVec 512

structure PlatformConfig where
  admin : Address
  feeDestination : Address
  fee : UInt64
deriving DecidableEq

structure Poll where
  id : UInt64
  nChoices : UInt8
  tallierKey : Point
  censusRoot : Word
  cumulativeMsgHash : Word
  votingStartTime : UInt64
  votingEndTime : UInt64
  platformFee : UInt64
  fee : UInt64
  feeDestination : Address
  descriptionUrl : String
  censusUrl : String
  tally : List UInt64
deriving DecidableEq

structure TallyAccount where
  tallyHash : Word
  cumulativeMsgHash : Word
  root : Word
deriving DecidableEq

structure ZkRelayerConfig where
  admin : Address
  fee : UInt64
  endpoint : String
  feeKey : Address
deriving DecidableEq

structure RelayerState where
  rootState : Word
  fee : UInt64
  msgLimit : UInt64
  endTime : UInt64
deriving DecidableEq

structure EncryptedMessage where
  ephPk : Point
  nonce : UInt64
  ciphertext : Fin ctLen → Word
deriving DecidableEq

structure VoteEvent where
  pollId : UInt64
  message : EncryptedMessage
  msgHash : Word

structure CreatePollEvent where
  pollId : UInt64
  nChoices : UInt8
  tallierKey : Point
  censusRoot : Word
  votingStartTime : UInt64
  votingEndTime : UInt64
  platformFee : UInt64
  fee : UInt64
  feeDestination : Address
  nVoters : UInt64
  descriptionUrl : String
  censusUrl : String

structure FinishTallyEvent where
  pollId : UInt64
  tally : List UInt64

inductive Event where
  | vote (event : VoteEvent)
  | createPoll (event : CreatePollEvent)
  | finishTally (event : FinishTallyEvent)

inductive ProgramError where
  | invalidProof
  | poseidon
  | incorrectTally
  | badTime
  | proofDecompressionError
  | relayerMsgHashMismatch
  | pollTooLong
  | relayerNotFunded
  | programNotAllowed
  -- Checks of the framework and of the runtime.
  | requireGtViolated
  | constraintSigner
  | constraintAddress
  | constraintHasOne
  | constraintSeeds
  | constraintClose
  | accountNotInitialized
  | accountAlreadyInUse
  | insufficientFunds
  | arithmeticOverflow
deriving DecidableEq

structure Ledger where
  clock : UInt64
  lamports : Address → Nat
  platformConfig : Option PlatformConfig
  polls : UInt64 → Option Poll
  tallies : UInt64 → Address → Option TallyAccount
  relayerConfig : Option ZkRelayerConfig
  relayerStates : Address → UInt64 → Option RelayerState
  events : List Event

def u8ToU256 (x : UInt8) : Word := BitVec.ofNat 256 x.toNat

def u64ToU256 (x : UInt64) : Word := BitVec.ofNat 256 x.toNat

structure Env where
  decompress : CompressedProof → Option Proof
  verifyVote : Proof → List Word → Bool
  verifyTally : Proof → List Word → Bool
  verifyRelay : Proof → List Word → Bool
  addressBytes : Address → Word
  minimumBalance : Nat → Nat

def EncryptedMessage.preimage (m : EncryptedMessage) : List Word :=
  m.ephPk.x :: m.ephPk.y :: u64ToU256 m.nonce :: List.ofFn m.ciphertext

/-- A handler's outcome; an error undoes the whole transaction. -/
abbrev Outcome (A : Type) := Except ProgramError A

def require (holds : Bool) (e : ProgramError) : Outcome Unit := if holds then .ok () else .error e

def poseidon (H : IdealHash Fr) (inputs : List Word) : Outcome Word :=
  match (wordHash H).hash inputs with
  | none => .error .poseidon
  | some h => .ok h

def load {A : Type} (account : Option A) : Outcome A :=
  match account with
  | none => .error .accountNotInitialized
  | some a => .ok a

def checked (x : Nat) : Outcome Nat := if x < 2 ^ 64 then .ok x else .error .arithmeticOverflow

def checkedSub (x y : Nat) : Outcome Nat := if y ≤ x then .ok (x - y) else .error .arithmeticOverflow

def CompressedProof.decompress (env : Env) (proof : CompressedProof) : Outcome Proof :=
  match env.decompress proof with
  | none => .error .proofDecompressionError
  | some proof => .ok proof

namespace Ledger

variable (l : Ledger)

def transfer (source destination : Address) (amount : Nat) : Outcome Ledger :=
  if l.lamports source < amount then .error .insufficientFunds
  else
    let taken := Function.update l.lamports source (l.lamports source - amount)
    .ok { l with lamports := Function.update taken destination (taken destination + amount) }

/-- `init`: the payer makes the new account exempt from rent. -/
def fund (env : Env) (payer account : Address) (space : Nat) : Outcome Ledger :=
  l.transfer payer account (env.minimumBalance space - l.lamports account)

/-- `close`: all lamports of the account go to the destination. -/
def drain (account destination : Address) : Ledger :=
  let moved := l.lamports account
  let emptied := Function.update l.lamports account 0
  { l with lamports := Function.update emptied destination (emptied destination + moved) }

def setRelayerState (targetProgram : Address) (stateId : UInt64) (state : RelayerState) : Ledger :=
  { l with
    relayerStates := Function.update l.relayerStates targetProgram
      (Function.update (l.relayerStates targetProgram) stateId (some state)) }

def emit (event : Event) : Ledger := { l with events := l.events ++ [event] }

def setPoll (id : UInt64) (poll : Poll) : Ledger :=
  { l with polls := Function.update l.polls id (some poll) }

def setTally (pollId : UInt64) (owner : Address) (tally : Option TallyAccount) : Ledger :=
  { l with tallies := Function.update l.tallies pollId (Function.update (l.tallies pollId) owner tally) }

def closeTallyAccount (pollId : UInt64) (owner destination : Address) : Outcome Ledger := do
  require (destination ≠ .tally pollId owner) .constraintClose
  return (l.drain (.tally pollId owner) destination).setTally pollId owner none

end Ledger

section outcomes

variable {A : Type} {e : ProgramError}

theorem require_ok_iff {holds : Bool} {u : Unit} : require holds e = .ok u ↔ holds = true := by
  cases holds <;> simp [require]

theorem require_error_iff {holds : Bool} {e' : ProgramError} :
    require holds e = .error e' ↔ holds = false ∧ e = e' := by
  cases holds <;> simp [require]

theorem load_ok_iff {account : Option A} {a : A} : load account = .ok a ↔ account = some a := by
  cases account <;> simp [load]

theorem load_error_iff {account : Option A} :
    load account = .error e ↔ account = none ∧ e = .accountNotInitialized := by
  cases account <;> simp [load, eq_comm]

theorem poseidon_ok_iff {H : IdealHash Fr} {inputs : List Word} {h : Word} :
    poseidon H inputs = .ok h ↔ (wordHash H).hash inputs = some h := by
  unfold poseidon
  cases (wordHash H).hash inputs <;> simp

theorem poseidon_error_iff {H : IdealHash Fr} {inputs : List Word} :
    poseidon H inputs = .error e ↔ (wordHash H).hash inputs = none ∧ e = .poseidon := by
  unfold poseidon
  cases (wordHash H).hash inputs <;> simp [eq_comm]

theorem checkedSub_ok_iff {x y d : Nat} : checkedSub x y = .ok d ↔ y ≤ x ∧ d = x - y := by
  unfold checkedSub
  split_ifs with enough <;> simp [enough, eq_comm]

theorem checkedSub_error_iff {x y : Nat} : checkedSub x y = .error e ↔ x < y ∧ e = .arithmeticOverflow := by
  unfold checkedSub
  split_ifs with enough
  · simp [enough]
  · simp [not_le.1 enough, eq_comm]

theorem decompress_ok_iff {env : Env} {compressed : CompressedProof} {proof : Proof} :
    compressed.decompress env = .ok proof ↔ env.decompress compressed = some proof := by
  unfold CompressedProof.decompress
  cases env.decompress compressed <;> simp

theorem pure_ok_iff {a b : A} : (pure a : Outcome A) = .ok b ↔ a = b := by
  simp [pure, Except.pure]

end outcomes

end Mootvote.Program
