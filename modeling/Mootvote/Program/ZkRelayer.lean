import Mootvote.Program.State

set_option autoImplicit false

namespace Mootvote.Program.ZkRelayer

open Shared

def allowedPrograms (mootvoteId : Address) : List Address := [mootvoteId]

def relayerStateSpace : Nat := 1 + (32 + 8 + 8 + 8)

def zkRelayerConfigSpace (endpointLen : Nat) : Nat := 1 + (32 + 8 + (4 + 32)) + ((4 + 32) + endpointLen)

variable (env : Env) (signers : List Address) (l : Ledger)

structure Initialize where
  payer : Address
  endpoint : String
  feeKey : Address
  admin : Address
  fee : UInt64

def initializeConfig (i : Initialize) : Outcome Ledger := do
  require (i.payer ∈ signers) .constraintSigner
  require l.relayerConfig.isNone .accountAlreadyInUse
  let l ← l.fund env i.payer .relayerConfig (zkRelayerConfigSpace i.endpoint.utf8ByteSize)
  return { l with
    relayerConfig := some { admin := i.admin, fee := i.fee, endpoint := i.endpoint, feeKey := i.feeKey } }

structure UpdateConfig where
  payer : Address
  admin : Address
  endpoint : String
  feeKey : Address
  newAdmin : Address
  fee : UInt64

def updateConfig (u : UpdateConfig) : Outcome Ledger := do
  require (u.payer ∈ signers) .constraintSigner
  require (u.admin ∈ signers) .constraintSigner
  let config ← load l.relayerConfig
  require (config.admin = u.admin) .constraintHasOne
  let lenOld := config.endpoint.utf8ByteSize
  let lenNew := u.endpoint.utf8ByteSize
  let rentDiff := env.minimumBalance (max lenOld lenNew - min lenOld lenNew) - env.minimumBalance 0
  let l ← (if lenOld < lenNew then l.transfer u.payer .relayerConfig rentDiff
    else l.transfer .relayerConfig u.payer rentDiff)
  return { l with
    relayerConfig := some { admin := u.newAdmin, fee := u.fee, endpoint := u.endpoint, feeKey := u.feeKey } }

def hash00 : Word := Word.ofFr Mootvote.hash00

structure CreateRelayerState where
  payer : Address
  targetProgram : Address
  stateId : UInt64
  msgLimit : UInt64
  endTime : UInt64

/-- `programSigner` is the account that signs for the target program. -/
def createRelayerState (mootvoteId programSigner : Address) (c : CreateRelayerState) : Outcome Ledger := do
  require (c.payer ∈ signers) .constraintSigner
  let config ← load l.relayerConfig
  require (l.relayerStates c.targetProgram c.stateId).isNone .accountAlreadyInUse
  let l ← l.fund env c.payer (.relayerState c.targetProgram c.stateId) relayerStateSpace
  require (programSigner = .zkRelayerSigner && programSigner ∈ signers) .constraintSeeds
  require (c.targetProgram ∈ allowedPrograms mootvoteId) .programNotAllowed
  let state := { rootState := hash00, fee := config.fee, msgLimit := c.msgLimit, endTime := c.endTime }
  return l.setRelayerState c.targetProgram c.stateId state

def relayPublicInputs (state : RelayerState) (rootStateNew nuHash msgHash : Word) : List Word :=
  [state.rootState, rootStateNew, nuHash, msgHash, u64ToU256 state.msgLimit]

end Mootvote.Program.ZkRelayer
