import Mootvote.Program.Mootvote
import Mootvote.Shared.Steps

set_option autoImplicit false

namespace Mootvote.Program

open Shared

/-- The first two accounts of an instruction, in the order the program reads them. -/
def Instruction.leadingAccounts : Instruction → List Address
  | .initializeConfig i => [i.payer, .platformConfig]
  | .updateConfig u => [u.admin, .platformConfig]
  | .createPoll c => [c.payer, .platformConfig]
  | .vote v => [v.payer, v.pollFeeDestination]
  | .voteWithRelayer v => [v.relayer, v.relayerState]
  | .createTally c => [c.payer, .tally c.pollId c.payer]
  | .tallyBatch b => [.tally b.tallyPollId b.tallyOwner]
  | .finishTally f => [f.payer, .tally f.tallyPollId f.tallyOwner]
  | .closeTally c => [c.owner, .tally c.pollId c.owner]
  | .withdrawPoll w => [w.feeDestination, .poll w.pollId]

def littleEndian (x : UInt64) : BitVec 64 :=
  (List.range 8).foldl (fun acc i => acc <<< 8 ||| (x.toBitVec >>> (8 * i) &&& 255)) 0

def Vote.leadingWords (v : Vote) : List Word :=
  [v.message.ephPk.x, v.message.ephPk.y, littleEndian v.message.nonce ++
    (v.message.ciphertext 0).extractLsb' 64 192]

/-- The relayer's accounts and words come first; the caller chooses what follows them. -/
def Instruction.carries (call : Instruction) (relayer relayerState : Address) (words : List Word) : Bool :=
  call.leadingAccounts = [relayer, relayerState] &&
    match call with
    | .vote v => v.leadingWords = words
    | .voteWithRelayer v => [v.relayerNuHash, v.msgHash, v.relayerId] = words
    | _ => true

variable (H : IdealHash Fr) (env : Env) (signers : List Address) (l : Ledger)

namespace ZkRelayer

structure Relay where
  relayer : Address
  targetProgram : Address
  stateId : UInt64
  proof : CompressedProof
  rootStateNew : Word
  msgHash : Word
  nuHash : Word
  -- What the discriminator, the data and the remaining accounts mean to the target program.
  call : Instruction

def relayerId (relayer : Address) : Word := env.addressBytes relayer &&& BitVec.ofNat 256 (2 ^ 253 - 1)

def relay (r : Relay) : Outcome Ledger := do
  let config ← load l.relayerConfig
  require (r.relayer = config.feeKey) .constraintAddress
  require (r.relayer ∈ signers) .constraintSigner
  let state ← load (l.relayerStates r.targetProgram r.stateId)
  require (r.targetProgram ∈ allowedPrograms mootvoteId) .programNotAllowed
  let proof ← r.proof.decompress env
  require (env.verifyRelay proof (relayPublicInputs state r.rootStateNew r.nuHash r.msgHash)) .invalidProof
  let l := l.setRelayerState r.targetProgram r.stateId { state with rootState := r.rootStateNew }
  let relayerState := .relayerState r.targetProgram r.stateId
  require (r.call.carries r.relayer relayerState [r.nuHash, r.msgHash, relayerId env r.relayer])
    .constraintSeeds
  let balanceBefore := l.lamports r.relayer
  let l ← r.call.execute H env (relayerState :: signers) l
  let balanceAfter := l.lamports r.relayer
  require (balanceAfter > balanceBefore && balanceAfter - balanceBefore ≥ state.fee.toNat) .relayerNotFunded
  return l

end ZkRelayer

inductive Call where
  | mootvote (i : Instruction)
  | initializeRelayer (i : ZkRelayer.Initialize)
  | updateRelayer (u : ZkRelayer.UpdateConfig)
  | createRelayerState (programSigner : Address) (c : ZkRelayer.CreateRelayerState)
  | relay (r : ZkRelayer.Relay)
  | systemTransfer (source destination : Address) (amount : Nat)

def Call.execute : Call → Outcome Ledger
  | .mootvote i => i.execute H env signers l
  | .initializeRelayer i => ZkRelayer.initializeConfig env signers l i
  | .updateRelayer u => ZkRelayer.updateConfig env signers l u
  | .createRelayerState programSigner c => ZkRelayer.createRelayerState env signers l mootvoteId
    programSigner c
  | .relay r => ZkRelayer.relay H env signers l r
  | .systemTransfer source destination amount => do
      require (source ∈ signers) .constraintSigner
      l.transfer source destination amount

def Call.instruction : Call → Option Instruction
  | .mootvote i => some i
  | .relay r => some r.call
  | _ => none

/-- Only keys sign transactions; the signature of a derived address is a program's to give. -/
structure Tx where
  now : UInt64
  signers : List Word
  call : Call

def Tx.execute (tx : Tx) : Outcome Ledger :=
  tx.call.execute H env (tx.signers.map .key) { l with clock := tx.now }

def genesis (clock : UInt64) (lamports : Address → Nat) : Ledger :=
  { clock, lamports, platformConfig := none, polls := fun _ => none, tallies := fun _ _ => none
    relayerConfig := none, relayerStates := fun _ _ => none, events := [] }

structure Applied where
  before : Ledger
  tx : Tx

/-- A transaction that succeeds; one that fails changes nothing. -/
structure Step (l : Ledger) (e : Applied) (l' : Ledger) : Prop where
  before : e.before = l
  done : e.tx.execute H env l = .ok l'

def Ticking (es : List Applied) : Prop := es.Pairwise fun e e' => e.tx.now ≤ e'.tx.now

theorem Ticking.of_map {es : List Applied} (ticking : (es.map Applied.tx).Pairwise fun tx tx' =>
    tx.now ≤ tx'.now) :
    Ticking es := by
  rwa [List.pairwise_map] at ticking

def replay : Ledger → List Tx → Outcome Ledger
  | l, [] => .ok l
  | l, tx :: txs => do
      let l ← tx.execute H env l
      replay l txs

variable {H env}

theorem replay_steps {l l' : Ledger} {txs : List Tx} (done : replay H env l txs = .ok l') :
    ∃ es, Steps (Step H env) l es l' ∧ es.map Applied.tx = txs := by
  induction txs generalizing l with
  | nil =>
      cases done
      exact ⟨[], .nil _, rfl⟩
  | cons tx txs ih =>
      simp only [replay, bind_ok_iff] at done
      obtain ⟨mid, executed, rest⟩ := done
      obtain ⟨es, run, same⟩ := ih rest
      exact ⟨⟨l, tx⟩ :: es, .cons ⟨rfl, executed⟩ run, by rw [List.map_cons, same]⟩

theorem replay_of_steps {l l' : Ledger} {es : List Applied} (run : Steps (Step H env) l es l') :
    replay H env l (es.map Applied.tx) = .ok l' := by
  induction run with
  | nil => rfl
  | cons step _ ih => simp [replay, step.done, ih, bind, Except.bind]

/-- What a replay shows at its end holds of every run of these transactions. -/
theorem shown_of_steps {A : Type} (shows : Ledger → A) (txs : List Tx) {l l' : Ledger} {es : List Applied}
    {shown : A} (run : Steps (Step H env) l es l') (same : es.map Applied.tx = txs)
    (replayed : (replay H env l txs).toOption.map shows = some shown) : shows l' = shown := by
  rw [← same, replay_of_steps run] at replayed
  exact Option.some.inj replayed

theorem replay_append (l : Ledger) (txs txs' : List Tx) :
    replay H env l (txs ++ txs') = (do
      let l ← replay H env l txs
      replay H env l txs') := by
  induction txs generalizing l with
  | nil => rfl
  | cons tx txs ih =>
      rw [List.cons_append, replay, replay]
      cases tx.execute H env l with
      | error => rfl
      | ok mid => exact ih mid

theorem replay_split {l l₂ : Ledger} {front back : List Tx} {tx : Tx}
    (done : replay H env l (front ++ tx :: back) = .ok l₂) :
    ∃ past mid e l₁ later, Steps (Step H env) l past mid ∧ Step H env mid e l₁ ∧
    Steps (Step H env) l₁ later l₂ ∧
      past.map Applied.tx = front ∧ e.tx = tx ∧ later.map Applied.tx = back := by
  obtain ⟨es, run, same⟩ := replay_steps done
  obtain ⟨past, rest, rfl, isFront, isRest⟩ := List.map_eq_append_iff.1 same
  obtain ⟨e, later, rfl, isTx, isBack⟩ := List.map_eq_cons_iff.1 isRest
  obtain ⟨mid, before, after⟩ := Steps.append_iff.1 run
  obtain ⟨l₁, step, after⟩ := Steps.cons_iff.1 after
  exact ⟨past, mid, e, l₁, later, before, step, after, isFront, isTx, isBack⟩

end Mootvote.Program
