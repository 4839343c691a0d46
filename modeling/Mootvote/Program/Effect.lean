import Mootvote.Program.Run

set_option autoImplicit false

namespace Mootvote.Program

open Shared

structure Records where
  clock : UInt64
  platformConfig : Option PlatformConfig
  polls : UInt64 → Option Poll
  tallies : UInt64 → Address → Option TallyAccount
  relayerConfig : Option ZkRelayerConfig
  relayerStates : Address → UInt64 → Option RelayerState
  events : List Event

def Ledger.records (l : Ledger) : Records :=
  { clock := l.clock, platformConfig := l.platformConfig, polls := l.polls, tallies := l.tallies
    relayerConfig := l.relayerConfig, relayerStates := l.relayerStates, events := l.events }

namespace Records

variable (r : Records)

def setPoll (id : UInt64) (poll : Poll) : Records :=
  { r with polls := Function.update r.polls id (some poll) }

def setTally (pollId : UInt64) (owner : Address) (tally : Option TallyAccount) : Records :=
  { r with tallies := Function.update r.tallies pollId (Function.update (r.tallies pollId) owner tally) }

def setRelayerState (targetProgram : Address) (stateId : UInt64) (state : RelayerState) : Records :=
  { r with
    relayerStates := Function.update r.relayerStates targetProgram
      (Function.update (r.relayerStates targetProgram) stateId (some state)) }

def emit (event : Event) : Records := { r with events := r.events ++ [event] }

variable {r : Records} {id pollId : UInt64} {owner : Address} {poll : Poll} {tally : Option TallyAccount}
  {event : Event}

@[simp] theorem setPoll_polls : (r.setPoll id poll).polls = Function.update r.polls id (some poll) := rfl
@[simp] theorem setPoll_tallies : (r.setPoll id poll).tallies = r.tallies := rfl
@[simp] theorem setPoll_events : (r.setPoll id poll).events = r.events := rfl
@[simp] theorem setTally_polls : (r.setTally pollId owner tally).polls = r.polls := rfl
@[simp] theorem setTally_events : (r.setTally pollId owner tally).events = r.events := rfl
@[simp] theorem emit_polls : (r.emit event).polls = r.polls := rfl
@[simp] theorem emit_tallies : (r.emit event).tallies = r.tallies := rfl
@[simp] theorem setPoll_relayerStates : (r.setPoll id poll).relayerStates = r.relayerStates := rfl
@[simp] theorem emit_relayerStates : (r.emit event).relayerStates = r.relayerStates := rfl
@[simp] theorem emit_events : (r.emit event).events = r.events ++ [event] := rfl

theorem setTally_tallies (otherPoll : UInt64) (otherOwner : Address) :
    (r.setTally pollId owner tally).tallies otherPoll otherOwner =
      if otherPoll = pollId ∧ otherOwner = owner then tally else r.tallies otherPoll otherOwner := by
  unfold setTally
  by_cases samePoll : otherPoll = pollId
  · subst samePoll
    by_cases sameOwner : otherOwner = owner <;> simp [sameOwner]
  · simp [samePoll]

theorem setRelayerState_relayerStates {state : RelayerState} (program other : Address)
    (stateId otherId : UInt64) :
    (r.setRelayerState program stateId state).relayerStates other otherId =
      if other = program ∧ otherId = stateId then some state else r.relayerStates other otherId := by
  unfold setRelayerState
  by_cases sameProgram : other = program
  · subst sameProgram
    by_cases sameId : otherId = stateId <;> simp [sameId]
  · simp [sameProgram]

end Records

inductive Voted (H : IdealHash Fr) (r : Records) (pollId : UInt64) (message : EncryptedMessage)
    (expected : Option Word) :
    Records → Prop
  | mk {poll : Poll} {msgHash cumulativeMsgHash : Word} (found : r.polls pollId = some poll)
      (started : poll.votingStartTime ≤ r.clock) (running : r.clock ≤ poll.votingEndTime)
      (hashed : (wordHash H).hash message.preimage = some msgHash)
      (agreed : ∀ h, expected = some h → msgHash = h)
      (chained : (wordHash H).hash [poll.cumulativeMsgHash, msgHash] = some cumulativeMsgHash) :
      Voted H r pollId message expected ((r.setPoll pollId { poll with cumulativeMsgHash }).emit
        (.vote { pollId := poll.id, message, msgHash }))

def ZkRelayer.freshState (fee msgLimit endTime : UInt64) : RelayerState :=
  { rootState := ZkRelayer.hash00, fee, msgLimit, endTime }

inductive Effect (H : IdealHash Fr) (env : Env) (signers : List Address) (r : Records) :
    Instruction → Records → Prop
  | initializeConfig (i : Initialize) (config : PlatformConfig) (absent : r.platformConfig = none) :
      Effect H env signers r (.initializeConfig i) { r with platformConfig := some config }
  | updateConfig (u : UpdateConfig) (config : PlatformConfig) (present : r.platformConfig ≠ none) :
      Effect H env signers r (.updateConfig u) { r with platformConfig := some config }
  | createPoll {c : CreatePoll} {config : PlatformConfig} {relayerConfig : ZkRelayerConfig}
      (foundConfig : r.platformConfig = some config) (foundRelayer : r.relayerConfig = some relayerConfig)
      (absent : r.polls c.id = none) (absentState : r.relayerStates mootvoteId c.id = none) :
      Effect H env signers r (.createPoll c) (((r.setPoll c.id (c.poll config)).setRelayerState
        mootvoteId c.id
        (ZkRelayer.freshState relayerConfig.fee msgLimit c.votingEndTime)).emit
          (.createPoll (c.event config)))
  | vote {v : Vote} {r' : Records} (voted : Voted H r v.pollId v.message none r') :
      Effect H env signers r (.vote v) r'
  | voteWithRelayer {v : VoteWithRelayer} {poll : Poll} {r' : Records}
    (foundPoll : r.polls v.pollId = some poll)
      (signed : .relayerState mootvoteId poll.id ∈ signers)
      (voted : Voted H r v.pollId v.message (some v.msgHash) r') : Effect H env signers r
        (.voteWithRelayer v) r'
  | createTally (c : CreateTally) :
      Effect H env signers r (.createTally c) (r.setTally c.pollId c.payer
        (some { tallyHash := c.initialTallyHash, cumulativeMsgHash := 0, root := 0 }))
  | tallyBatch {b : TallyBatch} {tally : TallyAccount} {proof : Proof}
      (found : r.tallies b.tallyPollId b.tallyOwner = some tally)
      (decompressed : env.decompress b.proof = some proof)
      (verified : env.verifyTally proof (b.publicInputs tally) = true) :
      Effect H env signers r (.tallyBatch b) (r.setTally b.tallyPollId b.tallyOwner (some b.tallyNew))
  | finishTally {f : FinishTally} {tally : TallyAccount} {poll : Poll}
      (found : r.tallies f.tallyPollId f.tallyOwner = some tally) (foundPoll : r.polls f.pollId = some poll)
      (ended : poll.votingEndTime < r.clock) (choices : f.tally.length = poll.nChoices.toNat)
      (fits : poll.nChoices.toNat ≤ maxChoices) (same : tally.cumulativeMsgHash = poll.cumulativeMsgHash)
      (opened : (wordHash H).hash (f.preimage (maxChoices - poll.nChoices.toNat)) = some tally.tallyHash) :
      Effect H env signers r (.finishTally f) (((r.setPoll f.pollId { poll with tally := f.tally }).emit
        (.finishTally { pollId := poll.id, tally := f.tally })).setTally f.tallyPollId f.tallyOwner none)
  | closeTally (c : CloseTally) : Effect H env signers r (.closeTally c) (r.setTally c.pollId c.owner none)
  | withdrawPoll {w : WithdrawPoll} {poll : Poll} (foundPoll : r.polls w.pollId = some poll)
      (own : poll.feeDestination = w.feeDestination) (ended : poll.votingEndTime ≤ r.clock) :
      Effect H env signers r (.withdrawPoll w) r

/-- The program's own accounts that an instruction takes lamports from. -/
def Instruction.sources : Instruction → List Address
  | .voteWithRelayer v => [.poll v.pollId]
  | .finishTally f => [.tally f.tallyPollId f.tallyOwner]
  | .closeTally c => [.tally c.pollId c.owner]
  | .withdrawPoll w => [.poll w.pollId]
  | _ => []

def Ledger.PaidBy (payers : List Address) (l l' : Ledger) : Prop := ∀ a ∉ payers, l.lamports a ≤ l'.lamports a

/-- What a successful instruction did: its effect on the records, and that it took no stranger's lamports. -/
structure Executed (H : IdealHash Fr) (env : Env) (signers : List Address) (l : Ledger)
    (i : Instruction) (l' : Ledger) :
    Prop where
  effect : Effect H env signers l.records i l'.records
  paid : l.PaidBy (signers ++ i.sources) l'

section payments

variable {l l' l'' : Ledger} {payers : List Address} {source destination : Address} {amount : Nat}

theorem Ledger.PaidBy.refl (payers : List Address) (l : Ledger) : l.PaidBy payers l := fun _ _ => le_rfl

theorem Ledger.PaidBy.trans (first : l.PaidBy payers l') (second : l'.PaidBy payers l'') :
    l.PaidBy payers l'' :=
  fun a other => (first a other).trans (second a other)

theorem Ledger.PaidBy.mono {payers' : List Address} (paid : l.PaidBy payers l') (more : payers ⊆ payers') :
    l.PaidBy payers' l' := fun a other => paid a fun member => other (more member)

theorem Ledger.PaidBy.signed {signers : List Address} (paid : l.PaidBy [source] l') (signs : source ∈ signers)
    (sources : List Address) : l.PaidBy (signers ++ sources) l' :=
  paid.mono (by simp [signs])

theorem Ledger.PaidBy.own {sources : List Address} (paid : l.PaidBy sources l') (signers : List Address) :
    l.PaidBy (signers ++ sources) l' := paid.mono (List.subset_append_right _ _)

theorem Ledger.transfer_paid (done : l.transfer source destination amount = .ok l') :
    l'.records = l.records ∧ l.PaidBy [source] l' := by
  unfold transfer at done
  split_ifs at done
  cases done
  refine ⟨rfl, fun a other => ?_⟩
  rw [List.mem_singleton] at other
  simp only [Function.update_apply, if_neg other]
  split_ifs <;> simp_all

theorem Ledger.fund_paid {env : Env} {space : Nat} (done : l.fund env source destination space = .ok l') :
    l'.records = l.records ∧ l.PaidBy [source] l' := transfer_paid done

theorem Ledger.drain_paid : l.PaidBy [source] (l.drain source destination) := by
  intro a other
  rw [List.mem_singleton] at other
  simp only [drain, Function.update_apply, if_neg other]
  split_ifs <;> simp_all

end payments

section inversion

variable {H : IdealHash Fr} {env : Env} {signers : List Address} {l l' : Ledger}

theorem ZkRelayer.createRelayerState_executed {programSigner : Address} {c : ZkRelayer.CreateRelayerState}
    (done : ZkRelayer.createRelayerState env signers l mootvoteId programSigner c = .ok l') :
    ∃ config, l.relayerConfig = some config ∧ l.relayerStates c.targetProgram c.stateId = none ∧
      .zkRelayerSigner ∈ signers ∧ c.payer ∈ signers ∧ l.PaidBy [c.payer] l' ∧ l'.records =
        l.records.setRelayerState c.targetProgram c.stateId
        (ZkRelayer.freshState config.fee c.msgLimit c.endTime) := by
  simp only [ZkRelayer.createRelayerState, bind_ok_iff, pure_ok_iff, load_ok_iff, require_ok_iff,
    Bool.and_eq_true, decide_eq_true_eq] at done
  obtain ⟨_, payer, config, found, _, absent, l₁, funded, _, ⟨rfl, signed⟩, _, _, rfl⟩ := done
  obtain ⟨records, paid⟩ := Ledger.fund_paid funded
  refine ⟨config, found, Option.isNone_iff_eq_none.1 absent, signed, payer, paid, ?_⟩
  change l₁.records.setRelayerState _ _ _ = _
  rw [records]
  rfl

theorem initializeConfig_executed {i : Initialize} (done : initializeConfig env signers l i = .ok l') :
    Executed H env signers l (.initializeConfig i) l' := by
  simp only [initializeConfig, bind_ok_iff, pure_ok_iff, require_ok_iff, decide_eq_true_eq] at done
  obtain ⟨_, signed, _, absent, l₁, funded, rfl⟩ := done
  obtain ⟨records, paid⟩ := Ledger.fund_paid funded
  refine ⟨?_, paid.signed signed _⟩
  change Effect H env signers l.records _ { l₁.records with platformConfig := some _ }
  rw [records]
  exact .initializeConfig i _ (Option.isNone_iff_eq_none.1 absent)

theorem updateConfig_executed {u : UpdateConfig} (done : updateConfig signers l u = .ok l') :
    Executed H env signers l (.updateConfig u) l' := by
  simp only [updateConfig, bind_ok_iff, pure_ok_iff, load_ok_iff] at done
  obtain ⟨_, _, _, found, _, _, rfl⟩ := done
  refine ⟨.updateConfig u _ ?_, .refl _ _⟩
  rw [show l.records.platformConfig = l.platformConfig from rfl, found]
  exact Option.some_ne_none _

theorem createPoll_parts {c : CreatePoll} (done : createPoll env signers l c = .ok l') :
    ∃ config relayerConfig amount l₁ l₂ l₃, c.payer ∈ signers ∧
      l.platformConfig = some config ∧ l.relayerConfig = some relayerConfig ∧ l.polls c.id = none ∧
      l.relayerStates mootvoteId c.id = none ∧
      l.fund env c.payer (.poll c.id) (pollSpace c.nChoices c.descriptionUrl c.censusUrl) = .ok l₁ ∧
      deposit relayerConfig.fee config.fee c.nVoters = .ok amount ∧
      (l₁.setPoll c.id (c.poll config)).transfer c.payer (.poll c.id) amount = .ok l₂ ∧
      l₂.PaidBy [c.payer] l₃ ∧
      l₃.records = (l.records.setPoll c.id (c.poll config)).setRelayerState mootvoteId c.id
        (ZkRelayer.freshState relayerConfig.fee msgLimit c.votingEndTime) ∧
      l' = l₃.emit (.createPoll (c.event config)) := by
  simp only [createPoll, bind_ok_iff, pure_ok_iff, require_ok_iff, load_ok_iff, decide_eq_true_eq] at done
  obtain ⟨_, signed, config, foundConfig, _, absent, l₁, funded, relayerConfig, foundRelayer, _, _, _, _,
    amount, deposited, l₂, paid, l₃, created, rfl⟩ := done
  obtain ⟨records₁, _⟩ := Ledger.fund_paid funded
  obtain ⟨records₂, _⟩ := Ledger.transfer_paid paid
  obtain ⟨relayerConfig', foundRelayer', absentState, _, _, paid₃, records₃⟩ :=
    ZkRelayer.createRelayerState_executed created
  have polled : l₂.records = l.records.setPoll c.id (c.poll config) := by
    rw [records₂]
    change l₁.records.setPoll _ _ = _
    rw [records₁]
  -- Creating the poll moves neither the relayer's config nor its states.
  have before : l.relayerConfig = some relayerConfig :=
    (congrArg Records.relayerConfig records₁).symm.trans foundRelayer
  have same : relayerConfig' = relayerConfig := by
    have again : l₂.records.relayerConfig = some relayerConfig' := foundRelayer'
    rw [polled] at again
    exact Option.some.inj (again.symm.trans before)
  subst same
  have noState : l.relayerStates mootvoteId c.id = none := by
    have empty : l₂.records.relayerStates mootvoteId c.id = none := absentState
    rwa [polled] at empty
  rw [polled] at records₃
  exact ⟨config, relayerConfig', amount, l₁, l₂, l₃, signed, foundConfig, before,
    Option.isNone_iff_eq_none.1 absent, noState, funded, deposited, paid, paid₃, records₃, rfl⟩

theorem createPoll_executed {c : CreatePoll} (done : createPoll env signers l c = .ok l') :
    Executed H env signers l (.createPoll c) l' := by
  obtain ⟨config, relayerConfig, amount, l₁, l₂, l₃, signed, foundConfig, foundRelayer, absent, absentState,
    funded, _, paid, paid₃, records₃, rfl⟩ := createPoll_parts done
  obtain ⟨_, paid₁⟩ := Ledger.fund_paid funded
  obtain ⟨_, paid₂⟩ := Ledger.transfer_paid paid
  constructor
  · change Effect H env signers l.records _ (l₃.records.emit _)
    rw [records₃]
    exact .createPoll foundConfig foundRelayer absent absentState
  · exact ((paid₁.trans paid₂).trans paid₃).signed signed _

theorem voteCommon_ok_iff {pollId : UInt64} {message : EncryptedMessage} {proof : CompressedProof}
    {relayerNuHash relayerId : Word} {expected : Option Word} :
    voteCommon H env l pollId message proof relayerNuHash relayerId expected = .ok l' ↔
    ∃ poll msgHash opened digest,
      l.polls pollId = some poll ∧ (poll.votingStartTime ≤ l.clock ∧ l.clock ≤ poll.votingEndTime) ∧
      (wordHash H).hash message.preimage = some msgHash ∧ (expected.all fun h => msgHash = h) = true ∧
      env.decompress proof = some opened ∧
      env.verifyVote opened (votePublicInputs poll msgHash relayerNuHash relayerId) = true ∧
      (wordHash H).hash [poll.cumulativeMsgHash, msgHash] = some digest ∧
      l' = (l.setPoll pollId { poll with cumulativeMsgHash := digest }).emit
        (.vote { pollId := poll.id, message, msgHash }) := by
  simp only [voteCommon, bind_ok_iff, pure_ok_iff, require_ok_iff, load_ok_iff, poseidon_ok_iff,
    decompress_ok_iff, Bool.and_eq_true, decide_eq_true_eq]
  constructor
  · rintro ⟨poll, found, _, inTime, msgHash, hashed, _, agreed, opened, decompressed, _, verified,
      digest, chained, rfl⟩
    exact ⟨poll, msgHash, opened, digest, found, inTime, hashed, agreed, decompressed, verified, chained, rfl⟩
  · rintro ⟨poll, msgHash, opened, digest, found, inTime, hashed, agreed, decompressed, verified, chained, rfl⟩
    exact ⟨poll, found, (), inTime, msgHash, hashed, (), agreed, opened, decompressed, (), verified,
      digest, chained, rfl⟩

theorem voteCommon_voted {pollId : UInt64} {message : EncryptedMessage} {proof : CompressedProof}
    {relayerNuHash relayerId : Word} {msgHashFromRelayer : Option Word}
    (done : voteCommon H env l pollId message proof relayerNuHash relayerId msgHashFromRelayer = .ok l') :
    Voted H l.records pollId message msgHashFromRelayer l'.records ∧ l'.lamports = l.lamports := by
  obtain ⟨poll, msgHash, _, digest, found, ⟨started, running⟩, hashed, agreed, _, _, chained, rfl⟩ :=
    voteCommon_ok_iff.1 done
  refine ⟨.mk found started running hashed (fun h isSome => ?_) chained, rfl⟩
  rw [isSome] at agreed
  exact of_decide_eq_true agreed

theorem vote_executed {v : Vote} (done : vote H env signers l v = .ok l') :
    Executed H env signers l (.vote v) l' := by
  simp only [vote, bind_ok_iff, require_ok_iff, decide_eq_true_eq] at done
  obtain ⟨_, signed, _, _, _, _, _, _, _, _, l₁, paidPoll, l₂, paidPlatform, voted⟩ := done
  obtain ⟨records₁, paid₁⟩ := Ledger.transfer_paid paidPoll
  obtain ⟨records₂, paid₂⟩ := Ledger.transfer_paid paidPlatform
  obtain ⟨voted, lamports⟩ := voteCommon_voted voted
  rw [records₂, records₁] at voted
  refine ⟨.vote voted, fun a other => ?_⟩
  rw [lamports]
  exact (paid₁.trans paid₂).signed signed _ a other

theorem voteWithRelayer_executed {v : VoteWithRelayer} (done : voteWithRelayer H env signers l v = .ok l') :
    Executed H env signers l (.voteWithRelayer v) l' := by
  simp only [voteWithRelayer, bind_ok_iff, load_ok_iff, require_ok_iff, decide_eq_true_eq] at done
  obtain ⟨_, _, _, _, poll, foundPoll, _, signed, _, seeds, _, _, _, _, l₁, paidRelayer, l₂,
    paidPlatform, voted⟩ := done
  obtain ⟨records₁, paid₁⟩ := Ledger.transfer_paid paidRelayer
  obtain ⟨records₂, paid₂⟩ := Ledger.transfer_paid paidPlatform
  obtain ⟨voted, lamports⟩ := voteCommon_voted voted
  rw [records₂, records₁] at voted
  refine ⟨.voteWithRelayer foundPoll (seeds ▸ signed) voted, fun a other => ?_⟩
  rw [lamports]
  exact (paid₁.trans paid₂).own _ a other

theorem createTally_executed {c : CreateTally} (done : createTally env signers l c = .ok l') :
    Executed H env signers l (.createTally c) l' := by
  simp only [createTally, bind_ok_iff, pure_ok_iff, require_ok_iff, decide_eq_true_eq] at done
  obtain ⟨_, signed, l₁, funded, rfl⟩ := done
  have kept : l₁.records = l.records ∧ l.PaidBy [c.payer] l₁ := by
    cases found : l.tallies c.pollId c.payer with
    | none =>
        rw [found] at funded
        exact Ledger.fund_paid funded
    | some tally =>
        rw [found] at funded
        cases funded
        exact ⟨rfl, .refl _ _⟩
  refine ⟨?_, kept.2.signed signed _⟩
  change Effect H env signers l.records _ (l₁.records.setTally _ _ _)
  rw [kept.1]
  exact .createTally c

theorem tallyBatch_executed {b : TallyBatch} (done : tallyBatch env l b = .ok l') :
    Executed H env signers l (.tallyBatch b) l' := by
  simp only [tallyBatch, bind_ok_iff, pure_ok_iff, require_ok_iff, load_ok_iff, decompress_ok_iff] at done
  obtain ⟨tally, found, proof, decompressed, _, verified, rfl⟩ := done
  exact ⟨.tallyBatch found decompressed verified, .refl _ _⟩

theorem Ledger.closeTallyAccount_ok_iff {pollId : UInt64} {owner destination : Address} :
    l.closeTallyAccount pollId owner destination = .ok l' ↔ destination ≠ .tally pollId owner ∧
      l' = (l.drain (.tally pollId owner) destination).setTally pollId owner none := by
  simp only [closeTallyAccount, bind_ok_iff, pure_ok_iff, require_ok_iff, decide_eq_true_eq]
  constructor
  · rintro ⟨_, distinct, rfl⟩
    exact ⟨distinct, rfl⟩
  · rintro ⟨distinct, rfl⟩
    exact ⟨(), distinct, rfl⟩

theorem finishTally_ok_iff {f : FinishTally} :
    finishTally H l f = .ok l' ↔ ∃ tally poll,
      l.tallies f.tallyPollId f.tallyOwner = some tally ∧ l.polls f.pollId = some poll ∧
      poll.votingEndTime < l.clock ∧ f.tally.length = poll.nChoices.toNat ∧
      tally.cumulativeMsgHash = poll.cumulativeMsgHash ∧ poll.nChoices.toNat ≤ maxChoices ∧
      (wordHash H).hash (f.preimage (maxChoices - poll.nChoices.toNat)) = some tally.tallyHash ∧
      f.payer ≠ .tally f.tallyPollId f.tallyOwner ∧
      l' = ((((l.setPoll f.pollId { poll with tally := f.tally }).emit
        (.finishTally { pollId := poll.id, tally := f.tally })).drain
          (.tally f.tallyPollId f.tallyOwner) f.payer).setTally f.tallyPollId f.tallyOwner none) := by
  simp only [finishTally, bind_ok_iff, require_ok_iff, load_ok_iff, poseidon_ok_iff, checkedSub_ok_iff,
    Ledger.closeTallyAccount_ok_iff, decide_eq_true_eq]
  constructor
  · rintro ⟨tally, found, poll, foundPoll, _, ended, _, choices, _, same, _, ⟨fits, rfl⟩, _, opened, _, rfl,
      closed⟩
    exact ⟨tally, poll, found, foundPoll, ended, choices, same, fits, opened, closed⟩
  · rintro ⟨tally, poll, found, foundPoll, ended, choices, same, fits, opened, closed⟩
    exact ⟨tally, found, poll, foundPoll, (), ended, (), choices, (), same, _, ⟨fits, rfl⟩, _, opened, (), rfl,
      closed⟩

theorem finishTally_executed {f : FinishTally} (done : finishTally H l f = .ok l') :
    Executed H env signers l (.finishTally f) l' := by
  obtain ⟨tally, poll, found, foundPoll, ended, choices, same, fits, opened, _, rfl⟩ := finishTally_ok_iff.1 done
  exact ⟨.finishTally found foundPoll ended choices fits same opened, Ledger.drain_paid.own _⟩

theorem closeTally_executed {c : CloseTally} (done : closeTally l c = .ok l') :
    Executed H env signers l (.closeTally c) l' := by
  simp only [closeTally, bind_ok_iff] at done
  obtain ⟨_, _, closed⟩ := done
  obtain ⟨_, rfl⟩ := Ledger.closeTallyAccount_ok_iff.1 closed
  exact ⟨.closeTally c, Ledger.drain_paid.own _⟩

theorem withdrawPoll_executed {w : WithdrawPoll} (done : withdrawPoll env l w = .ok l') :
    Executed H env signers l (.withdrawPoll w) l' := by
  simp only [withdrawPoll, bind_ok_iff, require_ok_iff, load_ok_iff, decide_eq_true_eq] at done
  obtain ⟨_, foundPoll, _, own, _, ended, _, _, transferred⟩ := done
  obtain ⟨records, paid⟩ := Ledger.transfer_paid transferred
  refine ⟨?_, paid.own _⟩
  rw [records]
  exact .withdrawPoll foundPoll own ended

theorem Instruction.executed {i : Instruction} (done : i.execute H env signers l = .ok l') :
    Executed H env signers l i l' := by
  cases i with
  | initializeConfig i => exact initializeConfig_executed done
  | updateConfig u => exact updateConfig_executed done
  | createPoll c => exact createPoll_executed done
  | vote v => exact vote_executed done
  | voteWithRelayer v => exact voteWithRelayer_executed done
  | createTally c => exact createTally_executed done
  | tallyBatch b => exact tallyBatch_executed done
  | finishTally f => exact finishTally_executed done
  | closeTally c => exact closeTally_executed done
  | withdrawPoll w => exact withdrawPoll_executed done

/-- The checks that `relay` makes before it calls the target program. -/
structure ZkRelayer.Relayed (env : Env) (r : Records) (q : ZkRelayer.Relay)
    (state : RelayerState) : Prop where
  found : r.relayerStates mootvoteId q.stateId = some state
  program : q.targetProgram = mootvoteId
  verified : ∃ proof, env.decompress q.proof = some proof ∧
    env.verifyRelay proof (ZkRelayer.relayPublicInputs state q.rootStateNew q.nuHash q.msgHash) = true
  carried : q.call.carries q.relayer (.relayerState mootvoteId q.stateId)
    [q.nuHash, q.msgHash, ZkRelayer.relayerId env q.relayer] = true

theorem ZkRelayer.Relayed.of_relayerStates {r r' : Records} {q : ZkRelayer.Relay} {state : RelayerState}
    (relayed : ZkRelayer.Relayed env r q state) (same : r'.relayerStates = r.relayerStates) :
    ZkRelayer.Relayed env r' q state :=
  ⟨same ▸ relayed.found, relayed.program, relayed.verified, relayed.carried⟩

theorem ZkRelayer.relay_ok_iff {q : ZkRelayer.Relay} :
    ZkRelayer.relay H env signers l q = .ok l' ↔ ∃ state,
      (∃ config, l.relayerConfig = some config ∧ q.relayer = config.feeKey) ∧ q.relayer ∈ signers ∧
      ZkRelayer.Relayed env l.records q state ∧
      q.call.execute H env (.relayerState mootvoteId q.stateId :: signers)
        (l.setRelayerState mootvoteId q.stateId { state with rootState := q.rootStateNew }) = .ok l' ∧
      l.lamports q.relayer < l'.lamports q.relayer ∧
      state.fee.toNat ≤ l'.lamports q.relayer - l.lamports q.relayer := by
  simp only [relay, bind_ok_iff, pure_ok_iff, load_ok_iff, require_ok_iff, decompress_ok_iff,
    allowedPrograms, List.mem_singleton, Bool.and_eq_true, decide_eq_true_eq]
  constructor
  · rintro ⟨config, isConfig, _, feeKey, _, signed, state, found, _, program, proof, decompressed, _, verified,
      _, carried, _, called, _, gains, rfl⟩
    rw [program] at found carried called
    exact ⟨state, ⟨config, isConfig, feeKey⟩, signed,
      ⟨found, program, ⟨proof, decompressed, verified⟩, carried⟩, called, gains⟩
  · rintro ⟨state, ⟨config, isConfig, feeKey⟩, signed, relayed, called, gains⟩
    obtain ⟨proof, decompressed, verified⟩ := relayed.verified
    have found := relayed.found
    have carried := relayed.carried
    rw [← relayed.program] at found carried called
    exact ⟨config, isConfig, (), feeKey, (), signed, state, found, (), relayed.program, proof, decompressed, (),
      verified, (), carried, l', called, (), gains, rfl⟩

inductive Call.Effect (H : IdealHash Fr) (env : Env) (signers : List Address) (r : Records) :
    Call → Records → Prop
  | mootvote {i : Instruction} {r' : Records} (effect : Program.Effect H env signers r i r') :
      Call.Effect H env signers r (.mootvote i) r'
  | relay {q : ZkRelayer.Relay} {state : RelayerState} {r' : Records}
    (relayed : ZkRelayer.Relayed env r q state)
      (effect : Program.Effect H env (.relayerState mootvoteId q.stateId :: signers)
        (r.setRelayerState mootvoteId q.stateId { state with rootState := q.rootStateNew }) q.call r') :
      Call.Effect H env signers r (.relay q) r'
  | initializeRelayer (i : ZkRelayer.Initialize) (config : ZkRelayerConfig) :
      Call.Effect H env signers r (.initializeRelayer i) { r with relayerConfig := some config }
  | updateRelayer (u : ZkRelayer.UpdateConfig) (config : ZkRelayerConfig) :
      Call.Effect H env signers r (.updateRelayer u) { r with relayerConfig := some config }
  | createRelayerState {programSigner : Address} {c : ZkRelayer.CreateRelayerState} (config : ZkRelayerConfig)
      (absent : r.relayerStates c.targetProgram c.stateId = none) (signed : .zkRelayerSigner ∈ signers) :
      Call.Effect H env signers r (.createRelayerState programSigner c)
        (r.setRelayerState c.targetProgram c.stateId (ZkRelayer.freshState config.fee c.msgLimit c.endTime))
  | systemTransfer (source destination : Address) (amount : Nat) :
      Call.Effect H env signers r (.systemTransfer source destination amount) r

def Call.sources : Call → List Address
  | .mootvote i => i.sources
  | .updateRelayer _ => [.relayerConfig]
  | .relay q => .relayerState q.targetProgram q.stateId :: q.call.sources
  | _ => []

theorem Call.executed {call : Call} (done : call.execute H env signers l = .ok l') :
    Call.Effect H env signers l.records call l'.records ∧ l.PaidBy (signers ++ call.sources) l' := by
  cases call with
  | mootvote i =>
      have executed := Instruction.executed done
      exact ⟨.mootvote executed.effect, executed.paid⟩
  | relay q =>
      obtain ⟨state, _, _, relayed, called, _⟩ := ZkRelayer.relay_ok_iff.1 done
      have executed := Instruction.executed called
      have paid : l.PaidBy (signers ++ (Call.relay q).sources) l' := executed.paid.mono fun a member => by
        simp only [sources, relayed.program, List.cons_append, List.mem_cons, List.mem_append] at member ⊢
        tauto
      exact ⟨.relay relayed executed.effect, paid⟩
  | initializeRelayer i =>
      simp only [execute, ZkRelayer.initializeConfig, bind_ok_iff, pure_ok_iff, require_ok_iff,
        decide_eq_true_eq] at done
      obtain ⟨_, signed, _, _, l₁, funded, rfl⟩ := done
      obtain ⟨records, paid⟩ := Ledger.fund_paid funded
      refine ⟨?_, paid.signed signed _⟩
      change Call.Effect H env signers l.records _ { l₁.records with relayerConfig := some _ }
      rw [records]
      exact .initializeRelayer i _
  | updateRelayer u =>
      simp only [execute, ZkRelayer.updateConfig, bind_ok_iff, pure_ok_iff, require_ok_iff,
        decide_eq_true_eq] at done
      obtain ⟨_, signed, _, _, _, _, _, _, l₁, paid, rfl⟩ := done
      have kept : l₁.records = l.records ∧ l.PaidBy (signers ++ [.relayerConfig]) l₁ := by
        split_ifs at paid
        · exact (Ledger.transfer_paid paid).imp id fun paid => paid.signed signed _
        · exact (Ledger.transfer_paid paid).imp id fun paid => paid.own _
      refine ⟨?_, kept.2⟩
      change Call.Effect H env signers l.records _ { l₁.records with relayerConfig := some _ }
      rw [kept.1]
      exact .updateRelayer u _
  | createRelayerState programSigner c =>
      obtain ⟨config, _, absent, signed, payer, paid, records⟩ := ZkRelayer.createRelayerState_executed done
      refine ⟨?_, paid.signed payer _⟩
      rw [records]
      exact .createRelayerState config absent signed
  | systemTransfer source destination amount =>
      simp only [execute, bind_ok_iff, require_ok_iff, decide_eq_true_eq] at done
      obtain ⟨_, signed, transferred⟩ := done
      obtain ⟨records, paid⟩ := Ledger.transfer_paid transferred
      refine ⟨?_, paid.signed signed _⟩
      rw [records]
      exact .systemTransfer source destination amount

theorem Step.effect {e : Applied} (step : Step H env l e l') :
    Call.Effect H env (e.tx.signers.map .key) { l.records with clock := e.tx.now } e.tx.call l'.records :=
  (Call.executed step.done).1

theorem Step.paid {e : Applied} (step : Step H env l e l') :
    l.PaidBy (e.tx.signers.map .key ++ e.tx.call.sources) l' := (Call.executed step.done).2

/-- What a transaction does to the polls, the tallies and the events: its instruction's effect, or nothing. -/
theorem Step.outcome {e : Applied} (step : Step H env l e l') :
    (e.tx.call.instruction = none ∧ l'.polls = l.polls ∧ l'.tallies = l.tallies ∧ l'.events = l.events) ∨
    ∃ i signers r, e.tx.call.instruction = some i ∧ r.clock = e.tx.now ∧ r.polls = l.polls ∧
    r.tallies = l.tallies ∧
      r.events = l.events ∧ Effect H env signers r i l'.records := by
  have effect := step.effect
  generalize after : l'.records = r' at effect
  have same : l'.polls = r'.polls ∧ l'.tallies = r'.tallies ∧ l'.events = r'.events := by
    rw [← after]
    exact ⟨rfl, rfl, rfl⟩
  generalize e.tx.call = call at effect ⊢
  cases effect with
  | mootvote effect => exact .inr ⟨_, _, _, rfl, rfl, rfl, rfl, rfl, effect⟩
  | relay relayed effect => exact .inr ⟨_, _, _, rfl, rfl, rfl, rfl, rfl, effect⟩
  | initializeRelayer | updateRelayer | createRelayerState | systemTransfer => exact .inl ⟨rfl, same⟩

theorem Effect.relayerState {r r' : Records} {i : Instruction} (effect : Effect H env signers r i r')
    (id : UInt64) :
    r'.relayerStates mootvoteId id = r.relayerStates mootvoteId id ∨ r.relayerStates mootvoteId id = none ∧
      ∃ fee endTime, r'.relayerStates mootvoteId id = some (ZkRelayer.freshState fee msgLimit endTime) := by
  cases effect with
  | @createPoll c config relayerConfig _ _ _ absent =>
      rw [Records.emit_relayerStates, Records.setRelayerState_relayerStates]
      by_cases same : id = c.id
      · subst same
        exact .inr ⟨absent, relayerConfig.fee, c.votingEndTime, if_pos ⟨rfl, rfl⟩⟩
      · exact .inl (if_neg fun both => same both.2)
  | vote voted | voteWithRelayer _ _ voted =>
      cases voted
      exact .inl rfl
  | _ => exact .inl rfl

theorem Step.relayerState {e : Applied} (step : Step H env l e l') (id : UInt64) :
    l'.relayerStates mootvoteId id = l.relayerStates mootvoteId id ∨
    (l.relayerStates mootvoteId id = none ∧
      ∃ fee limit endTime, l'.relayerStates mootvoteId id = some (ZkRelayer.freshState fee limit endTime)) ∨
    ∃ q state, e.tx.call = .relay q ∧ q.stateId = id ∧ ZkRelayer.Relayed env l.records q state ∧
      l'.relayerStates mootvoteId id = some { state with rootState := q.rootStateNew } := by
  have effect := step.effect
  rw [show l'.relayerStates = l'.records.relayerStates from rfl]
  generalize l'.records = r' at effect ⊢
  generalize e.tx.call = call at effect ⊢
  cases effect with
  | mootvote effect =>
      rcases effect.relayerState id with same | ⟨absent, fee, endTime, created⟩
      · exact .inl same
      · exact .inr (.inl ⟨absent, fee, msgLimit, endTime, created⟩)
  | @relay q state _ relayed effect =>
      have moved := effect.relayerState id
      rw [Records.setRelayerState_relayerStates] at moved
      by_cases same : id = q.stateId
      · subst same
        rw [if_pos ⟨rfl, rfl⟩] at moved
        rcases moved with same | ⟨absent, _⟩
        · exact .inr (.inr ⟨q, state, rfl, rfl, relayed.of_relayerStates rfl, same⟩)
        · cases absent
      · rw [if_neg fun both => same both.2] at moved
        rcases moved with same | ⟨absent, fee, endTime, created⟩
        · exact .inl same
        · exact .inr (.inl ⟨absent, fee, msgLimit, endTime, created⟩)
  | @createRelayerState _ c config absent _ =>
      rw [Records.setRelayerState_relayerStates]
      split_ifs with same
      · rw [same.1, same.2]
        exact .inr (.inl ⟨absent, _, _, _, rfl⟩)
      · exact .inl rfl
  | initializeRelayer | updateRelayer | systemTransfer => exact .inl rfl

structure Finished (H : IdealHash Fr) (l : Ledger) (now : UInt64) (f : FinishTally)
    (tally : TallyAccount) (poll : Poll)
    (l' : Ledger) : Prop where
  found : l.tallies f.tallyPollId f.tallyOwner = some tally
  foundPoll : l.polls f.pollId = some poll
  ended : poll.votingEndTime < now
  choices : f.tally.length = poll.nChoices.toNat
  fits : poll.nChoices.toNat ≤ maxChoices
  same : tally.cumulativeMsgHash = poll.cumulativeMsgHash
  opened : (wordHash H).hash (f.preimage (maxChoices - poll.nChoices.toNat)) = some tally.tallyHash
  recorded : l'.polls f.pollId = some { poll with tally := f.tally }

theorem Step.finished {e : Applied} {f : FinishTally} (step : Step H env l e l')
    (finishes : e.tx.call.instruction = some (.finishTally f)) :
    ∃ tally poll, Finished H l e.tx.now f tally poll l' := by
  rcases step.outcome with ⟨none, _⟩ | ⟨i, signers, r, called, clock, polls, tallies, _, effect⟩
  · rw [finishes] at none
    cases none
  · cases called.symm.trans finishes
    generalize after : l'.records = r' at effect
    cases effect with
    | @finishTally _ tally poll found foundPoll ended choices fits same opened =>
        have recorded : l'.polls f.pollId = some { poll with tally := f.tally } := by
          rw [show l'.polls = l'.records.polls from rfl, after, Records.setTally_polls, Records.emit_polls,
            Records.setPoll_polls, Function.update_self]
        exact ⟨tally, poll, tallies ▸ found, polls ▸ foundPoll, clock ▸ ended, choices, fits, same,
          opened, recorded⟩

end inversion

end Mootvote.Program
