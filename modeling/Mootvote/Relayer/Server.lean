import Mootvote.Circom.Relay
import Mootvote.Smt.Operations

set_option autoImplicit false

namespace Mootvote.Relayer

open Shared SparseMerkle SmtCircom SmtCircom.SparseMerkleTree

abbrev stateDepth : Nat := 64

def msgLimit : Nat := 3

abbrev Pubkey := Word

structure StateKey where
  program : Pubkey
  stateId : BitVec 64
deriving DecidableEq

def StateKey.serialize (key : StateKey) : List UInt8 := key.program.bytes ++ bytesBE 8 key.stateId.toNat

structure LoadedState where
  quotaTree : RocksStore
  uniqTree : RocksStore

def loadState (db : DB) (key : StateKey) (batch : WriteBatch) : LoadedState where
  quotaTree := .new db .nodesQuota batch key.serialize
  uniqTree := .new db .nodesUniq batch key.serialize

/-- The parts of a request that the trees and the proof depend on. -/
structure RelayRequest where
  msgHash : Word
  nu : Word
  targetProgram : Pubkey
  stateId : BitVec 64

def RelayRequest.key (req : RelayRequest) : StateKey :=
  { program := req.targetProgram, stateId := req.stateId }

inductive RelayError where
  | messageDuplicated
  | messageLimitExceeded
  | transactionError
  | smt (e : SmtError Empty)
deriving DecidableEq

structure RelayInputs where
  rootQuotaOld : Word
  rootUniqOld : Word
  msgHash : Word
  msgLimit : Nat
  nu : Word
  countOld : Nat
  siblingsQuota : List Word
  noAuxQuota : Bool
  auxKeyQuota : Word
  auxValueQuota : Word
  siblingsUniq : List Word
  noAuxUniq : Bool
  auxKeyUniq : Word
  auxValueUniq : Word
deriving DecidableEq

-- Both trees stage their writes in one batch.
def onQuota {A : Type} (m : Run RocksStore A) : Exec LoadedState RelayError A := fun state =>
  match m state.quotaTree with
  | .error p => .error p
  | .ok (r, tree) =>
      .ok (r.mapError .smt, { quotaTree := tree, uniqTree := { state.uniqTree with batch := tree.batch } })

def onUniq {A : Type} (m : Run RocksStore A) : Exec LoadedState RelayError A := fun state =>
  match m state.uniqTree with
  | .error p => .error p
  | .ok (r, tree) =>
      .ok (r.mapError .smt, { quotaTree := { state.quotaTree with batch := tree.batch }, uniqTree := tree })

/-- `idx[..32 - STATE_DEPTH / 8].fill(0)`. -/
def idx (nu : Word) : Word := BitVec.ofNat 256 (nu.toNat % 2 ^ stateDepth)

def u64ToU256 (x : Nat) : Word := BitVec.ofNat 256 x

/-- Up to the proof: what goes to the prover, and the count it starts from. -/
def prepare (req : RelayRequest) : Exec LoadedState RelayError (Nat × RelayInputs) := do
  let quota ← onQuota (getProof stateDepth (idx req.nu))
  let uniq ← onUniq (getProof stateDepth req.msgHash)
  if uniq.membership then .throw .messageDuplicated
  else
    let prevCount := if quota.membership then quota.oldValue.toNat % 2 ^ 64 else 0
    if msgLimit ≤ prevCount then .throw .messageLimitExceeded
    else do
      let rootQuotaBefore ← onQuota root
      let rootUniqBefore ← onUniq root
      return (prevCount,
        { rootQuotaOld := rootQuotaBefore, rootUniqOld := rootUniqBefore, msgHash := req.msgHash, msgLimit,
          nu := req.nu, countOld := prevCount,
          siblingsQuota := quota.siblings, noAuxQuota := quota.isOld0, auxKeyQuota := quota.oldKey,
          auxValueQuota := quota.oldValue,
          siblingsUniq := uniq.siblings, noAuxUniq := uniq.isOld0, auxKeyUniq := uniq.oldKey,
          auxValueUniq := uniq.oldValue })

/-- Past the transaction: the writes that `batch` collects. -/
def record (H : IdealHash Word) (req : RelayRequest) (prevCount : Nat) :
    Exec LoadedState RelayError Unit := do
  if prevCount = 0 then
    onQuota (add H stateDepth (idx req.nu) (u64ToU256 (prevCount + 1)))
  else do
    let _ ← onQuota (update H stateDepth (idx req.nu) (u64ToU256 (prevCount + 1)))
  onUniq (add H stateDepth req.msgHash 1)

/-- A request on its trees; `accepts` says whether proving and the transaction succeed. -/
def serve (H : IdealHash Word) (accepts : RelayInputs → Bool) (req : RelayRequest) :
    Exec LoadedState RelayError Unit := do
  let (prevCount, inputs) ← prepare req
  if accepts inputs then record H req prevCount
  else .throw .transactionError

def relayInner (H : IdealHash Word) (accepts : RelayInputs → Bool) (req : RelayRequest) :
    Exec DB RelayError Unit := fun db =>
  match serve H accepts req (loadState db req.key []) with
  | .error p => .error p
  | .ok (.error e, _) => .ok (.error e, db)
  | .ok (.ok (), state) => .ok (.ok (), db.write state.uniqTree.batch)

end Mootvote.Relayer
