import Mathlib.Tactic.Ring
import Mootvote.Program.Ownership
import Mootvote.Program.Phases
import Mootvote.Program.Relayed

set_option autoImplicit false

/-!
# The deposit of a poll

`create_poll` deposits the fees of three relayed votes for every voter, at the fees then in force.
-/

namespace Mootvote.Program

open Shared

section transfers

variable {l l' : Ledger} {source destination : Address} {amount : Nat}

theorem checked_ok_iff {x y : Nat} : checked x = .ok y ↔ x < 2 ^ 64 ∧ y = x := by
  by_cases small : x < 2 ^ 64
  · rw [checked, if_pos small, Except.ok.injEq]
    exact ⟨fun same => ⟨small, same.symm⟩, fun both => both.2.symm⟩
  · rw [checked, if_neg small]
    exact ⟨nofun, fun both => absurd both.1 small⟩

theorem Ledger.transfer_ok (enough : amount ≤ l.lamports source) :
    ∃ l', l.transfer source destination amount = .ok l' :=
  ⟨_, if_neg (Nat.not_lt.2 enough)⟩

theorem Ledger.transfer_enough (done : l.transfer source destination amount = .ok l') :
    amount ≤ l.lamports source := by
  unfold transfer at done
  split_ifs at done with short
  exact Nat.not_lt.1 short

theorem Ledger.transfer_source (done : l.transfer source destination amount = .ok l') :
    l.lamports source ≤ l'.lamports source + amount := by
  have enough := transfer_enough done
  unfold transfer at done
  rw [if_neg (Nat.not_lt.2 enough)] at done
  cases done
  by_cases same : source = destination
  · subst same
    simp only [Function.update_self]
    omega
  · simp only [Function.update_of_ne same, Function.update_self]
    omega

theorem Ledger.transfer_destination (done : l.transfer source destination amount = .ok l')
    (distinct : destination ≠ source) :
    l'.lamports destination = l.lamports destination + amount := by
  have enough := transfer_enough done
  unfold transfer at done
  rw [if_neg (Nat.not_lt.2 enough)] at done
  cases done
  simp only [Function.update_self, Function.update_of_ne distinct]

theorem Ledger.transfer_congr {m : Ledger} (same : m.lamports = l.lamports)
    (done : l.transfer source destination amount = .ok l') :
    ∃ m', m.transfer source destination amount = .ok m' ∧ m'.lamports = l'.lamports ∧
    m'.records = m.records := by
  have enough := transfer_enough done
  unfold transfer at done ⊢
  rw [if_neg (Nat.not_lt.2 enough)] at done
  cases done
  rw [same, if_neg (Nat.not_lt.2 enough)]
  exact ⟨_, rfl, rfl, rfl⟩

theorem Ledger.fund_exempt {env : Env} {space : Nat} (done : l.fund env source destination space = .ok l')
    (distinct : destination ≠ source) : env.minimumBalance space ≤ l'.lamports destination := by
  rw [transfer_destination done distinct]
  omega

end transfers

section creation

variable {H : IdealHash Fr} {env : Env} {l l' : Ledger} {e : Applied}

theorem Tx.key_of_signed {tx : Tx} {a : Address} (signed : a ∈ tx.signers.map Address.key) :
    ∃ bytes, a = .key bytes := by
  obtain ⟨bytes, _, rfl⟩ := List.mem_map.1 signed
  exact ⟨bytes, rfl⟩

def Poll.rent (env : Env) (poll : Poll) : Nat :=
  env.minimumBalance (pollSpace poll.nChoices poll.descriptionUrl poll.censusUrl)

theorem deposit_eq {relayerFee platformFee nVoters : UInt64} {amount : Nat}
    (done : deposit relayerFee platformFee nVoters = .ok amount) :
    amount = 3 * nVoters.toNat * (relayerFee.toNat + platformFee.toNat) := by
  simp only [deposit, bind_ok_iff, checked_ok_iff] at done
  obtain ⟨_, ⟨_, rfl⟩, _, ⟨_, rfl⟩, _, ⟨_, rfl⟩, _, rfl⟩ := done
  rw [show msgLimit.toNat = 3 by decide, show nRelayers.toNat = 1 by decide]
  ring

theorem Step.created {c : CreatePoll} (step : Step H env l e l')
    (called : e.tx.call.instruction = some (.createPoll c)) :
    ∃ config relayerConfig, l.platformConfig = some config ∧ l.relayerConfig = some relayerConfig ∧
      l'.polls c.id = some (c.poll config) ∧
      l'.relayerStates mootvoteId c.id = some (ZkRelayer.freshState relayerConfig.fee msgLimit
        c.votingEndTime) ∧
      (c.poll config).rent env + 3 * c.nVoters.toNat * (relayerConfig.fee.toNat + config.fee.toNat) ≤
        l'.lamports (.poll c.id) := by
  have done := step.direct called (by simp) (by simp)
  rw [Instruction.execute] at done
  obtain ⟨config, relayerConfig, amount, l₁, l₂, l₃, signed, foundConfig, foundRelayer, _, _, funded, deposited,
    paid, paid₃, records₃, rfl⟩ := createPoll_parts done
  obtain ⟨bytes, isKey⟩ := Tx.key_of_signed signed
  have distinct : Address.poll c.id ≠ c.payer := by
    rw [isKey]
    exact Address.noConfusion
  have rent := Ledger.fund_exempt funded distinct
  have received := Ledger.transfer_destination paid distinct
  have kept := paid₃ (.poll c.id) (by simpa using distinct)
  refine ⟨config, relayerConfig, foundConfig, foundRelayer, ?_, ?_, ?_⟩
  · change l₃.records.polls c.id = _
    rw [records₃]
    exact Function.update_self _ _ _
  · change l₃.records.relayerStates mootvoteId c.id = _
    rw [records₃, Records.setRelayerState_relayerStates, if_pos ⟨rfl, rfl⟩]
  · rw [← deposit_eq deposited]
    change env.minimumBalance (pollSpace c.nChoices c.descriptionUrl c.censusUrl) + amount ≤ l₃.lamports _
    change l₂.lamports (.poll c.id) = l₁.lamports (.poll c.id) + amount at received
    omega

end creation

section payments

variable {H : IdealHash Fr} {env : Env} {l l' : Ledger} {e : Applied}

/-- Both transfers of `vote_with_relayer` out of the poll account. -/
def VoteWithRelayer.pay (v : VoteWithRelayer) (fee platformFee : UInt64) (l : Ledger) : Outcome Ledger := do
  let l ← l.transfer (.poll v.pollId) v.relayer fee.toNat
  l.transfer (.poll v.pollId) v.platformFeeDestination platformFee.toNat

theorem VoteWithRelayer.pay_congr {v : VoteWithRelayer} {fee platformFee : UInt64} {m : Ledger}
    (same : m.lamports = l.lamports) (done : v.pay fee platformFee l = .ok l') :
    ∃ m', v.pay fee platformFee m = .ok m' ∧ m'.lamports = l'.lamports ∧ m'.records = m.records := by
  simp only [pay, bind_ok_iff] at done ⊢
  obtain ⟨l₁, first, second⟩ := done
  obtain ⟨m₁, first', lamports₁, records₁⟩ := Ledger.transfer_congr same first
  obtain ⟨m₂, second', lamports₂, records₂⟩ := Ledger.transfer_congr lamports₁ second
  exact ⟨m₂, ⟨m₁, first', second'⟩, lamports₂, records₂.trans records₁⟩

theorem VoteWithRelayer.pay_poll {v : VoteWithRelayer} {fee platformFee : UInt64}
    (done : v.pay fee platformFee l = .ok l') :
    l.lamports (.poll v.pollId) ≤ l'.lamports (.poll v.pollId) + fee.toNat + platformFee.toNat := by
  simp only [pay, bind_ok_iff] at done
  obtain ⟨l₁, first, second⟩ := done
  have taken := Ledger.transfer_source first
  have taken' := Ledger.transfer_source second
  omega

theorem VoteWithRelayer.pay_relayer {v : VoteWithRelayer} {fee platformFee : UInt64}
    (done : v.pay fee platformFee l = .ok l') (distinct : v.relayer ≠ .poll v.pollId) :
    l'.lamports v.relayer =
      l.lamports v.relayer + fee.toNat +
        if v.platformFeeDestination = v.relayer then platformFee.toNat else 0 := by
  simp only [pay, bind_ok_iff] at done
  obtain ⟨l₁, first, second⟩ := done
  have received := Ledger.transfer_destination first distinct
  split_ifs with same
  · rw [same] at second
    have received' := Ledger.transfer_destination second distinct
    omega
  · unfold Ledger.transfer at second
    split_ifs at second
    cases second
    simp only [Function.update_of_ne (Ne.symm same), Function.update_of_ne distinct]
    omega

/-- The payments of a relayed vote go through, and leave the poll its rent and the relayer funded. -/
structure PaymentsPass (env : Env) (l : Ledger) (v : VoteWithRelayer) (poll : Poll)
    (fee platformFee : UInt64) (l' : Ledger) :
    Prop where
  paid : v.pay fee platformFee l = .ok l'
  rent : poll.rent env ≤ l'.lamports (.poll v.pollId)
  funded : l.lamports v.relayer < l'.lamports v.relayer
  atLeast : fee.toNat ≤ l'.lamports v.relayer - l.lamports v.relayer

theorem payments_pass_iff {v : VoteWithRelayer} {poll : Poll} {fee platformFee : UInt64}
    (distinct : v.relayer ≠ .poll v.pollId)
    (enough : poll.rent env + (fee.toNat + platformFee.toNat) ≤ l.lamports (.poll v.pollId)) :
    (∃ l', PaymentsPass env l v poll fee platformFee l') ↔
      0 < fee ∨ v.platformFeeDestination = v.relayer ∧ 0 < platformFee := by
  have positive (x : UInt64) : 0 < x ↔ 0 < x.toNat := UInt64.lt_iff_toNat_lt
  constructor
  · rintro ⟨l', passes⟩
    have gain := VoteWithRelayer.pay_relayer passes.paid distinct
    have funded := passes.funded
    rw [positive, positive]
    split_ifs at gain with same
    · simp only [same, true_and]
      omega
    · simp only [same, false_and, or_false]
      omega
  · intro gains
    have first : ∃ l₁, l.transfer (.poll v.pollId) v.relayer fee.toNat = .ok l₁ :=
      Ledger.transfer_ok (by omega)
    obtain ⟨l₁, first⟩ := first
    have taken := Ledger.transfer_source first
    have second : ∃ l₂, l₁.transfer (.poll v.pollId) v.platformFeeDestination platformFee.toNat = .ok l₂ :=
      Ledger.transfer_ok (by omega)
    obtain ⟨l₂, second⟩ := second
    have done : v.pay fee platformFee l = .ok l₂ := bind_ok_iff.2 ⟨l₁, first, second⟩
    have left := VoteWithRelayer.pay_poll done
    have gain := VoteWithRelayer.pay_relayer done distinct
    rw [positive, positive] at gains
    refine ⟨l₂, done, by omega, ?_, by omega⟩
    rcases gains with fee | ⟨same, platformFee⟩
    · omega
    · rw [if_pos same] at gain
      omega

end payments

section offers

variable {H : IdealHash Fr} {env : Env} {l l' : Ledger} {tx : Tx} {q : ZkRelayer.Relay}
  {v : VoteWithRelayer} {poll : Poll}
  {state : RelayerState} {config : PlatformConfig}

/-- A relayed vote that passes every check but the payments. -/
structure Offered (H : IdealHash Fr) (env : Env) (l : Ledger) (tx : Tx) (q : ZkRelayer.Relay)
    (v : VoteWithRelayer)
    (poll : Poll) (state : RelayerState) (config : PlatformConfig) : Prop where
  relay : tx.call = .relay q
  call : q.call = .voteWithRelayer v
  feeKey : ∃ relayerConfig, l.relayerConfig = some relayerConfig ∧ q.relayer = relayerConfig.feeKey
  signed : q.relayer ∈ tx.signers.map Address.key
  relayed : ZkRelayer.Relayed env l.records q state
  foundConfig : l.platformConfig = some config
  foundPoll : l.polls v.pollId = some poll
  seeds : v.relayerState = .relayerState mootvoteId poll.id
  destination : v.platformFeeDestination = config.feeDestination
  counted : (voteCommon H env { l with clock := tx.now } v.pollId v.message v.proof
    v.relayerNuHash v.relayerId
    (some v.msgHash)).isOk

theorem voteCommon_isOk_iff {pollId : UInt64} {message : EncryptedMessage} {proof : CompressedProof}
    {relayerNuHash relayerId : Word} {expected : Option Word} :
    (voteCommon H env l pollId message proof relayerNuHash relayerId expected).isOk ↔
    ∃ poll msgHash opened digest,
      l.polls pollId = some poll ∧ (poll.votingStartTime ≤ l.clock ∧ l.clock ≤ poll.votingEndTime) ∧
      (wordHash H).hash message.preimage = some msgHash ∧ (expected.all fun h => msgHash = h) = true ∧
      env.decompress proof = some opened ∧
      env.verifyVote opened (votePublicInputs poll msgHash relayerNuHash relayerId) = true ∧
      (wordHash H).hash [poll.cumulativeMsgHash, msgHash] = some digest := by
  have isOk_iff {A : Type} (m : Outcome A) : m.isOk = true ↔ ∃ a, m = .ok a := by
    cases m <;> simp [Except.isOk, Except.toBool]
  simp only [isOk_iff, voteCommon_ok_iff]
  constructor
  · rintro ⟨_, poll, msgHash, opened, digest, found, inTime, hashed, agreed, decompressed, verified, chained, _⟩
    exact ⟨poll, msgHash, opened, digest, found, inTime, hashed, agreed, decompressed, verified, chained⟩
  · rintro ⟨poll, msgHash, opened, digest, found, inTime, hashed, agreed, decompressed, verified, chained⟩
    exact ⟨_, poll, msgHash, opened, digest, found, inTime, hashed, agreed, decompressed, verified, chained, rfl⟩

theorem voteWithRelayer_ok_iff {signers : List Address} :
    voteWithRelayer H env signers l v = .ok l' ↔ ∃ config poll state, v.relayer ∈ signers ∧
      l.platformConfig = some config ∧ l.polls v.pollId = some poll ∧ v.relayerState ∈ signers ∧
      v.relayerState = .relayerState mootvoteId poll.id ∧ l.relayerStates mootvoteId poll.id = some state ∧
      v.platformFeeDestination = config.feeDestination ∧ ∃ m, v.pay state.fee config.fee l = .ok m ∧
      voteCommon H env m v.pollId v.message v.proof v.relayerNuHash v.relayerId (some v.msgHash) = .ok l' := by
  simp only [voteWithRelayer, VoteWithRelayer.pay, bind_ok_iff, load_ok_iff, require_ok_iff, decide_eq_true_eq]
  constructor
  · rintro ⟨_, relayer, config, isConfig, poll, isPoll, _, signed, _, seeds, state, isState, _, destination,
      l₁, first, m, second, voted⟩
    exact ⟨config, poll, state, relayer, isConfig, isPoll, signed, seeds, isState, destination, m,
      ⟨l₁, first, second⟩, voted⟩
  · rintro ⟨config, poll, state, relayer, isConfig, isPoll, signed, seeds, isState, destination, m,
      ⟨l₁, first, second⟩, voted⟩
    exact ⟨(), relayer, config, isConfig, poll, isPoll, (), signed, (), seeds, state, isState, (), destination,
      l₁, first, m, second, voted⟩

namespace Offered

theorem inTime (offered : Offered H env l tx q v poll state config) :
    poll.votingStartTime ≤ tx.now ∧ tx.now ≤ poll.votingEndTime := by
  obtain ⟨other, _, _, _, found, inTime, _⟩ := voteCommon_isOk_iff.1 offered.counted
  cases found.symm.trans offered.foundPoll
  exact inTime

theorem relayer_eq (offered : Offered H env l tx q v poll state config) :
    v.relayer = q.relayer ∧ q.stateId = poll.id := by
  have carried := offered.relayed.carried
  rw [offered.call] at carried
  simp only [Instruction.carries, Instruction.leadingAccounts, Bool.and_eq_true, decide_eq_true_eq,
    List.cons.injEq, and_true] at carried
  have same := carried.1.2.symm.trans offered.seeds
  simp only [Address.relayerState.injEq, true_and] at same
  exact ⟨carried.1.1, same⟩

theorem relayer_ne (offered : Offered H env l tx q v poll state config) : v.relayer ≠ .poll v.pollId := by
  obtain ⟨bytes, isKey⟩ := Tx.key_of_signed offered.signed
  rw [offered.relayer_eq.1, isKey]
  exact Address.noConfusion

theorem executes_iff (offered : Offered H env l tx q v poll state config) :
    (∃ l', tx.execute H env l = .ok l') ↔ ∃ l', v.pay state.fee config.fee l = .ok l' ∧
      l.lamports v.relayer < l'.lamports v.relayer ∧
      state.fee.toNat ≤ l'.lamports v.relayer - l.lamports v.relayer := by
  obtain ⟨sameRelayer, sameId⟩ := offered.relayer_eq
  -- The relayer program stores the new root before it calls the voting program.
  let mid : Ledger := ({ l with clock := tx.now } : Ledger).setRelayerState mootvoteId q.stateId
    { state with rootState := q.rootStateNew }
  have stateAt : mid.relayerStates mootvoteId poll.id = some { state with rootState := q.rootStateNew } := by
    simp [mid, Ledger.setRelayerState, sameId]
  have votes (l' : Ledger) : voteWithRelayer H env
      (.relayerState mootvoteId q.stateId :: tx.signers.map .key) mid v = .ok l' ↔
      ∃ m, v.pay state.fee config.fee mid = .ok m ∧ voteCommon H env m v.pollId v.message v.proof
        v.relayerNuHash v.relayerId (some v.msgHash) = .ok l' := by
    rw [voteWithRelayer_ok_iff]
    constructor
    · rintro ⟨config', poll', state', _, isConfig, isPoll, _, _, isState, _, m, paid, voted⟩
      cases isConfig.symm.trans offered.foundConfig
      cases isPoll.symm.trans offered.foundPoll
      cases isState.symm.trans stateAt
      exact ⟨m, paid, voted⟩
    · rintro ⟨m, paid, voted⟩
      refine ⟨config, poll, _, ?_, offered.foundConfig, offered.foundPoll, ?_, offered.seeds, stateAt,
        offered.destination, m, paid, voted⟩
      · rw [sameRelayer]
        exact List.mem_cons_of_mem _ offered.signed
      · rw [offered.seeds, sameId]
        exact List.mem_cons_self
  have execution (l' : Ledger) : tx.execute H env l = .ok l' ↔ ∃ m, v.pay state.fee config.fee mid = .ok m ∧
      voteCommon H env m v.pollId v.message v.proof v.relayerNuHash v.relayerId (some v.msgHash) = .ok l' ∧
        mid.lamports v.relayer < l'.lamports v.relayer ∧
        state.fee.toNat ≤ l'.lamports v.relayer - mid.lamports v.relayer := by
    rw [Tx.execute, offered.relay, Call.execute, ZkRelayer.relay_ok_iff, sameRelayer]
    simp only [offered.call, Instruction.execute]
    constructor
    · rintro ⟨state', _, _, relayed, voted, gains⟩
      cases relayed.found.symm.trans offered.relayed.found
      obtain ⟨m, paid, counted⟩ := (votes l').1 voted
      exact ⟨m, paid, counted, gains⟩
    · rintro ⟨m, paid, counted, gains⟩
      exact ⟨state, offered.feeKey, offered.signed, offered.relayed.of_relayerStates rfl,
        (votes l').2 ⟨m, paid, counted⟩, gains⟩
  constructor
  · rintro ⟨l', done⟩
    obtain ⟨m, paid, counted, gains⟩ := (execution l').1 done
    -- Payments depend on the lamports alone, so they also pass on the ledger before `relay`.
    obtain ⟨m', paid', lamports, _⟩ := VoteWithRelayer.pay_congr (l := mid) (m := l) rfl paid
    rw [(voteCommon_voted counted).2, ← lamports] at gains
    exact ⟨m', paid', gains⟩
  · rintro ⟨m', paid', gains⟩
    obtain ⟨m, paid, lamports, records⟩ := VoteWithRelayer.pay_congr (l := l) (m := mid) rfl paid'
    have polls : m.polls = l.polls := congrArg Records.polls records
    have clock : m.clock = tx.now := congrArg Records.clock records
    have counted := offered.counted
    rw [voteCommon_isOk_iff] at counted
    have counts : (voteCommon H env m v.pollId v.message v.proof v.relayerNuHash v.relayerId
      (some v.msgHash)).isOk := by
      rw [voteCommon_isOk_iff, polls, clock]
      exact counted
    cases result : voteCommon H env m v.pollId v.message v.proof v.relayerNuHash v.relayerId
      (some v.msgHash) with
    | error error =>
        rw [result] at counts
        cases counts
    | ok l' =>
        refine ⟨l', (execution l').2 ⟨m, paid, result, ?_⟩⟩
        rw [(voteCommon_voted result).2, lamports]
        exact gains

end Offered

end offers

section runs

variable {H : IdealHash Fr} {env : Env} {l l' : Ledger} {e : Applied} {id : UInt64} {poll : Poll}

theorem Step.vote_paid {v : VoteWithRelayer} (step : Step H env l e l')
    (called : e.tx.call.instruction = some (.voteWithRelayer v)) :
    ∃ config poll state m, l.platformConfig = some config ∧ l.polls v.pollId = some poll ∧
      l.relayerStates mootvoteId poll.id = some state ∧ v.pay state.fee config.fee l = .ok m ∧
      l'.lamports = m.lamports := by
  obtain ⟨q, state, poll, vote⟩ := step.relayedVote called
  have done := step.done
  rw [Tx.execute, vote.relay, Call.execute, ZkRelayer.relay_ok_iff] at done
  obtain ⟨state', _, _, relayed, called, _⟩ := done
  cases relayed.found.symm.trans vote.relayed.found
  rw [vote.call, Instruction.execute, voteWithRelayer_ok_iff] at called
  obtain ⟨config, poll', current, _, isConfig, isPoll, _, _, isCurrent, _, l₃, taken, counted⟩ := called
  cases isPoll.symm.trans vote.foundPoll
  have fee : current.fee = state.fee := by
    rw [← vote.stateId] at isCurrent
    simp only [Ledger.setRelayerState, Function.update_self, Option.some.injEq] at isCurrent
    rw [← isCurrent]
  rw [fee] at taken
  obtain ⟨m, paid, lamports, _⟩ := VoteWithRelayer.pay_congr (m := l) (by rfl) taken
  exact ⟨config, poll, state, m, isConfig, vote.foundPoll, vote.stateId ▸ vote.relayed.found, paid,
    (voteCommon_voted counted).2.trans lamports.symm⟩

/-- Nothing but relayed votes and withdrawals takes lamports from a poll. -/
theorem Step.poll_lamports (step : Step H env l e l') (noVote : e.tx.relayed id = [])
    (kept : ¬e.tx.withdraws id) :
    l.lamports (.poll id) ≤ l'.lamports (.poll id) := by
  refine step.paid (.poll id) ?_
  unfold Tx.relayed at noVote
  unfold Tx.withdraws at kept
  have noKey : Address.poll id ∉ e.tx.signers.map Address.key := by simp
  have own (i : Instruction) (noVote : i.relayed id = [])
      (kept : ∀ w, i = .withdrawPoll w → w.pollId ≠ id) : Address.poll id ∉ i.sources := by
    cases i with
    | voteWithRelayer v => simpa [Instruction.sources, Instruction.relayed, eq_comm] using noVote
    | withdrawPoll w => simpa [Instruction.sources, eq_comm] using kept w rfl
    | _ => simp [Instruction.sources]
  rw [List.mem_append, not_or]
  refine ⟨noKey, ?_⟩
  generalize e.tx.call = call at noVote kept
  cases call with
  | mootvote i =>
      refine own i noVote ?_
      rintro w rfl
      exact kept
  | relay q =>
      have notSource := own q.call noVote fun w same => by
        simp only [Call.instruction, same] at kept
        exact kept
      simpa [Call.sources] using notSource
  | _ => simp [Call.sources]

def FeeCovered (l : Ledger) (id : UInt64) : Prop :=
  ∀ config poll, l.platformConfig = some config → l.polls id = some poll → config.fee ≤ poll.platformFee

/-- What is left of the deposit pays for the relayed votes that are left of the limit. -/
structure Covers (env : Env) (id : UInt64) (poll : Poll) (fee : UInt64) (limit : Nat)
    (past : List Applied) (l : Ledger) :
    Prop where
  kept : ∃ current, l.polls id = some current ∧ current.terms = poll.terms
  state : ∃ state, l.relayerStates mootvoteId id = some state ∧ state.fee = fee
  balance : (relayedHashes past id).length ≤ limit →
    poll.rent env + (limit - (relayedHashes past id).length) * (fee.toNat + poll.platformFee.toNat) ≤
      l.lamports (.poll id)

theorem Poll.id_of_terms {poll poll' : Poll} (same : poll'.terms = poll.terms) : poll'.id = poll.id := by
  simp only [terms, Poll.mk.injEq] at same
  exact same.1

theorem Poll.platformFee_of_terms {poll poll' : Poll} (same : poll'.terms = poll.terms) :
    poll'.platformFee = poll.platformFee := by
  simp only [terms, Poll.mk.injEq] at same
  exact same.2.2.2.2.2.2.2.1

theorem Poll.rent_of_terms {poll poll' : Poll} (same : poll'.terms = poll.terms) :
    poll'.rent env = poll.rent env := by
  simp only [terms, Poll.mk.injEq] at same
  rw [rent, rent, same.2.1, same.2.2.2.2.2.2.2.2.2.2.1, same.2.2.2.2.2.2.2.2.2.2.2.1]

namespace Covers

variable {fee : UInt64} {limit : Nat} {past : List Applied}

theorem share (covers : Covers env id poll fee limit past l) (own : poll.id = id) (step : Step H env l e l')
    {v : VoteWithRelayer} (called : e.tx.call.instruction = some (.voteWithRelayer v)) (pollId : v.pollId = id)
    (cheap : FeeCovered l id) :
    l.lamports (.poll id) ≤ l'.lamports (.poll id) + (fee.toNat + poll.platformFee.toNat) := by
  obtain ⟨current, found, terms⟩ := covers.kept
  obtain ⟨state, foundState, isFee⟩ := covers.state
  obtain ⟨config, poll', state', m, foundConfig, foundPoll, foundState', paid, lamports⟩ := step.vote_paid called
  have taken := VoteWithRelayer.pay_poll paid
  rw [pollId, ← lamports] at taken
  rw [pollId] at foundPoll
  cases foundPoll.symm.trans found
  rw [(Poll.id_of_terms terms).trans own] at foundState'
  cases foundState'.symm.trans foundState
  -- The platform's fee may have changed since the deposit was sized, but not above the poll's.
  have cheaper : config.fee.toNat ≤ poll.platformFee.toNat := by
    rw [← Poll.platformFee_of_terms terms]
    exact UInt64.le_iff_toNat_le.1 (cheap config current foundConfig foundPoll)
  rw [isFee] at taken
  omega

theorem step (covers : Covers env id poll fee limit past l) (own : poll.id = id) (step : Step H env l e l')
    (cheap : e.tx.relayed id ≠ [] → FeeCovered l id) (kept : ¬e.tx.withdraws id) :
    Covers env id poll fee limit (past ++ [e]) l' := by
  obtain ⟨current, found, terms⟩ := covers.kept
  obtain ⟨state, foundState, isFee⟩ := covers.state
  obtain ⟨next, foundNext, nextTerms, _⟩ := step.keeps_poll found
  refine ⟨⟨next, foundNext, nextTerms.trans terms⟩, ?_, ?_⟩
  · -- The relayer's state exists, so it is at most advanced, which leaves its fee.
    rcases step.relayerState id with same | ⟨absent, _⟩ | ⟨q, before, _, _, relayed, advanced⟩
    · exact ⟨state, same.trans foundState, isFee⟩
    · rw [foundState] at absent
      cases absent
    · next sameId =>
        have foundBefore := relayed.found
        rw [sameId] at foundBefore
        cases foundBefore.symm.trans foundState
        exact ⟨_, advanced, isFee⟩
  · rw [relayedHashes_snoc, List.length_append]
    intro few
    have balance := covers.balance (by omega)
    by_cases noVote : e.tx.relayed id = []
    · rw [noVote, List.length_nil, Nat.add_zero]
      exact balance.trans (step.poll_lamports noVote kept)
    · have feeCovered := cheap noVote
      unfold Tx.relayed at noVote few ⊢
      cases called : e.tx.call.instruction with
      | none => simp [called] at noVote
      | some i =>
          rw [called] at noVote few
          dsimp only at noVote few ⊢
          cases i with
          | voteWithRelayer v =>
              have pollId : v.pollId = id := by simpa [Instruction.relayed] using noVote
              have taken := covers.share own step called pollId feeCovered
              simp only [Instruction.relayed, if_pos pollId, List.length_singleton] at few ⊢
              have split : limit - (relayedHashes past id).length =
                limit - ((relayedHashes past id).length + 1) + 1 := by
                omega
              rw [split, Nat.add_mul, Nat.one_mul] at balance
              omega
          | _ => exact absurd rfl noVote

theorem of_run {l₁ : Ledger} {later : List Applied} (covers : Covers env id poll fee limit [] l₁)
    (own : poll.id = id)
    (run : Steps (Step H env) l₁ later l) (cheap : ∀ e ∈ later, e.tx.relayed id ≠ [] → FeeCovered e.before id)
    (kept : ∀ e ∈ later, e.tx.withdraws id → e.tx.now ≠ poll.votingEndTime)
    (voting : ∀ e ∈ later, e.tx.now ≤ poll.votingEndTime) : Covers env id poll fee limit later l := by
  refine run.invariant (I := Covers env id poll fee limit) covers fun past mid e mid' member before step => ?_
  refine before.step own step (fun votes => step.before ▸ cheap e member votes) fun withdraws => ?_
  -- A withdrawal needs the end to be reached, and a vote is still to come.
  obtain ⟨current, found, terms⟩ := before.kept
  have closes : e.tx.closes id := by
    unfold Tx.withdraws at withdraws
    unfold Tx.closes
    split at withdraws
    · next w called =>
        rw [called]
        exact withdraws
    · exact withdraws.elim
  obtain ⟨other, foundOther, reached, _⟩ := step.closed closes
  cases foundOther.symm.trans found
  rw [Poll.votingEndTime_of_terms terms] at reached
  exact kept e member withdraws (UInt64.le_antisymm (voting e member) reached)

end Covers

/-- While the platform's fee is no higher than the poll's and nobody withdraws, the deposit pays the relayed votes
it was sized for, and each of them passes if it brings the relayer anything. -/
theorem deposit_covers {c : CreatePoll} {l₀ l₁ : Ledger} {e₀ : Applied} {later : List Applied} {tx : Tx}
    {q : ZkRelayer.Relay} {v : VoteWithRelayer} {state : RelayerState} {config : PlatformConfig}
    (created : Step H env l₀ e₀ l₁) (called : e₀.tx.call.instruction = some (.createPoll c))
    (run : Steps (Step H env) l₁ later l) (ticking : Ticking (later ++ [⟨l, tx⟩]))
    (offered : Offered H env l tx q v poll state config) (own : v.pollId = c.id)
    (first : (relayedHashes later c.id).length < 3 * c.nVoters.toNat)
    (cheap : ∀ e ∈ later ++ [⟨l, tx⟩], e.tx.relayed c.id ≠ [] → FeeCovered e.before c.id)
    (kept : ∀ e ∈ later, e.tx.withdraws c.id → e.tx.now ≠ c.votingEndTime) :
    (∃ l', PaymentsPass env l v poll state.fee config.fee l') ↔
      0 < state.fee ∨ v.platformFeeDestination = v.relayer ∧ 0 < config.fee := by
  obtain ⟨config₁, relayerConfig, _, _, foundPoll, foundState, rent⟩ := created.created called
  have covers : Covers env c.id (c.poll config₁) relayerConfig.fee (3 * c.nVoters.toNat) [] l₁ :=
    ⟨⟨_, foundPoll, rfl⟩, ⟨_, foundState, rfl⟩, fun _ => rent⟩
  have found := offered.foundPoll
  rw [own] at found
  obtain ⟨current, foundCurrent, terms⟩ := terms_run run foundPoll
  cases found.symm.trans foundCurrent
  have voting : ∀ e ∈ later, e.tx.now ≤ (c.poll config₁).votingEndTime := by
    intro e member
    rw [← Poll.votingEndTime_of_terms terms]
    have before := (List.pairwise_append.1 ticking).2.2 e member _ (List.mem_singleton_self _)
    exact UInt64.le_trans before offered.inTime.2
  -- The invariant leaves the share of at least this one vote.
  have left := covers.of_run rfl run (fun e member => cheap e (List.mem_append_left _ member)) kept voting
  obtain ⟨current, foundState', isFee⟩ := left.state
  have sameState : current = state := by
    have foundOffered := offered.relayed.found
    rw [offered.relayer_eq.2, Poll.id_of_terms terms] at foundOffered
    exact Option.some.inj (foundState'.symm.trans foundOffered)
  subst sameState
  have feeCovered : FeeCovered l c.id := by
    refine cheap ⟨l, tx⟩ (by simp) ?_
    simp [Tx.relayed, Call.instruction, offered.relay, offered.call, Instruction.relayed, own]
  have cheaper : config.fee.toNat ≤ (c.poll config₁).platformFee.toNat := by
    rw [← Poll.platformFee_of_terms terms]
    exact UInt64.le_iff_toNat_le.1 (feeCovered config poll offered.foundConfig found)
  refine payments_pass_iff offered.relayer_ne ?_
  have balance := left.balance first.le
  have positive : 1 ≤ 3 * c.nVoters.toNat - (relayedHashes later c.id).length := by omega
  have share := Nat.mul_le_mul_right (relayerConfig.fee.toNat + (c.poll config₁).platformFee.toNat) positive
  rw [own, Poll.rent_of_terms terms, isFee]
  omega

end runs

namespace OneRelay

open OneVoter (payer sign)

def config (fee : UInt64) : PlatformConfig := { admin := payer, feeDestination := payer, fee }

def state : RelayerState := ZkRelayer.freshState 1 3 10

def parts (l : Ledger) : Option Address × Option PlatformConfig × Option Poll × Option RelayerState :=
  (l.relayerConfig.map ZkRelayerConfig.feeKey, l.platformConfig, l.polls 7, l.relayerStates mootvoteId 7)

theorem offered {l : Ledger} {fee : UInt64}
    (found : parts l = (some payer, some (config fee), some (newPoll.poll (config 0)), some state)) :
    Offered hash env l (relay 5) request vote (newPoll.poll (config 0)) state (config fee) := by
  simp only [parts, Prod.mk.injEq, Option.map_eq_some_iff] at found
  obtain ⟨⟨relayerConfig, foundRelayer, feeKey⟩, foundConfig, foundPoll, foundState⟩ := found
  refine ⟨rfl, rfl, ⟨relayerConfig, foundRelayer, feeKey.symm⟩, by decide,
    ⟨foundState, rfl, ⟨_, rfl, by decide +kernel⟩,
    by decide +kernel⟩, foundConfig, foundPoll, rfl, rfl, ?_⟩
  rw [voteCommon_isOk_iff]
  have inTime : (1 : UInt64) ≤ 5 ∧ (5 : UInt64) ≤ 10 := by decide
  exact ⟨_, 1, _, 240, foundPoll, inTime, by decide +kernel, by decide, rfl, rfl, by decide +kernel⟩

theorem exists_parts {txs : List Tx} {fee : UInt64}
    (found : (replay hash env (genesis 0 lamports) txs).toOption.map parts =
      some (some payer, some (config fee), some (newPoll.poll (config 0)), some state)) :
    ∃ l, replay hash env (genesis 0 lamports) txs = .ok l ∧
      Offered hash env l (relay 5) request vote (newPoll.poll (config 0)) state (config fee) := by
  cases done : replay hash env (genesis 0 lamports) txs with
  | error error =>
      rw [done] at found
      cases found
  | ok l =>
      rw [done] at found
      exact ⟨l, rfl, offered (Option.some.inj found)⟩

def raise : Tx := sign 1 (.mootvote (.updateConfig
  { admin := payer, newAdmin := payer, fee := 10, feeDestination := payer }))

def lower : Tx := sign 2 (.mootvote (.updateConfig
  { admin := payer, newAdmin := payer, fee := 0, feeDestination := payer }))

def nextPoll : Poll := { newPoll.poll (config 0) with cumulativeMsgHash := 240 }

def nextState : RelayerState := { state with rootState := 221 }

theorem offered_next {l : Ledger}
    (found : parts l = (some payer, some (config 0), some nextPoll, some nextState)) :
    Offered hash env l (nextRelay 6) nextRequest nextVote nextPoll nextState (config 0) := by
  simp only [parts, Prod.mk.injEq, Option.map_eq_some_iff] at found
  obtain ⟨⟨relayerConfig, foundRelayer, feeKey⟩, foundConfig, foundPoll, foundState⟩ := found
  refine ⟨rfl, rfl, ⟨relayerConfig, foundRelayer, feeKey.symm⟩, by decide,
    ⟨foundState, rfl, ⟨_, rfl, by decide +kernel⟩, by decide +kernel⟩, foundConfig, foundPoll, rfl, rfl, ?_⟩
  rw [voteCommon_isOk_iff]
  have inTime : (1 : UInt64) ≤ 6 ∧ (6 : UInt64) ≤ 10 := by decide
  exact ⟨_, 2, _, 241, foundPoll, inTime, by decide +kernel, by decide, rfl, rfl, by decide +kernel⟩

theorem feeCovered_of_parts {l : Ledger} {fee : UInt64} {poll : Poll} {other : RelayerState}
    (found : parts l = (some payer, some (config fee), some poll, some other))
    (covered : fee ≤ poll.platformFee) : FeeCovered l 7 := by
  simp only [parts, Prod.mk.injEq] at found
  obtain ⟨_, foundConfig, foundPoll, _⟩ := found
  intro config' poll' foundConfig' foundPoll'
  cases foundConfig.symm.trans foundConfig'
  cases foundPoll.symm.trans foundPoll'
  exact covered

theorem deposit_covers_next : ∃ later l₁ l, Steps (Step hash env) l₁ later l ∧
    later.map Applied.tx = [raise, lower, relay 5] ∧
    Offered hash env l (nextRelay 6) nextRequest nextVote nextPoll nextState (config 0) ∧
    ((∃ l', PaymentsPass env l nextVote nextPoll nextState.fee (config 0).fee l') ↔
      0 < nextState.fee ∨ nextVote.platformFeeDestination = nextVote.relayer ∧ 0 < (config 0).fee) := by
  have ready : (replay hash env (genesis 0 lamports) (setup ++ create :: [raise, lower, relay 5])).toOption.map
      parts = some (some payer, some (config 0), some nextPoll, some nextState) := by decide +kernel
  cases done : replay hash env (genesis 0 lamports) (setup ++ create :: [raise, lower, relay 5]) with
  | error error =>
      rw [done] at ready
      cases ready
  | ok l =>
      rw [done] at ready
      have offered := offered_next (Option.some.inj ready)
      obtain ⟨past, l₀, e₀, l₁, later, before, created, run, isPast, isCreate, isLater⟩ := replay_split done
      have parted : later.map Applied.tx = [raise, lower] ++ [relay 5] := isLater
      obtain ⟨changes, rest, rfl, isChanges, isRest⟩ := List.map_eq_append_iff.1 parted
      obtain ⟨e, none, rfl, isRelay, isNone⟩ := List.map_eq_cons_iff.1 isRest
      cases List.map_eq_nil_iff.1 isNone
      have called : e₀.tx.call.instruction = some (.createPoll newPoll) := by
        rw [isCreate]
        rfl
      have ticking : Ticking (changes ++ [e] ++ [⟨l, nextRelay 6⟩]) := by
        refine .of_map ?_
        rw [List.map_append, isLater]
        change ([raise, lower, relay 5] ++ [nextRelay 6]).Pairwise _
        decide
      have change (e : Applied) (member : e ∈ changes) : e.tx = raise ∨ e.tx = lower := by
        have listed := isChanges ▸ List.mem_map_of_mem member
        simpa using listed
      have cheap : ∀ e' ∈ changes ++ [e] ++ [⟨l, nextRelay 6⟩], e'.tx.relayed 7 ≠ [] →
          FeeCovered e'.before 7 := by
        obtain ⟨mid, changed, relays⟩ := Steps.append_iff.1 run
        obtain ⟨_, relayed, _⟩ := Steps.cons_iff.1 relays
        have lowered : parts mid =
            (some payer, some (config 0), some (newPoll.poll (config 0)), some state) :=
          shown_of_steps parts (setup ++ [create] ++ [raise, lower])
            (Steps.append_iff.2 ⟨_, before.snoc created, changed⟩)
            (by simp [isPast, isCreate, isChanges]) (by decide +kernel)
        intro e' member votes
        rcases List.mem_append.1 member with isLater | isNext
        · rcases List.mem_append.1 isLater with isChange | isLast
          · rcases change e' isChange with same | same <;> exact absurd rfl (same ▸ votes)
          · rw [List.mem_singleton.1 isLast, relayed.before]
            exact feeCovered_of_parts lowered (by decide)
        · rw [List.mem_singleton.1 isNext]
          exact feeCovered_of_parts (Option.some.inj ready) (by decide)
      have kept : ∀ e' ∈ changes ++ [e], e'.tx.withdraws newPoll.id → e'.tx.now ≠ newPoll.votingEndTime := by
        intro e' member withdraws
        rcases List.mem_append.1 member with isChange | isLast
        · rcases change e' isChange with same | same <;> rw [same] at withdraws <;> exact withdraws.elim
        · rw [List.mem_singleton.1 isLast, isRelay] at withdraws
          exact withdraws.elim
      have one : relayedHashes (changes ++ [e]) newPoll.id = [1] := by
        rw [relayedHashes, ← List.flatMap_map Applied.tx, isLater]
        rfl
      exact ⟨_, l₁, l, run, isLater, offered, deposit_covers created called run ticking offered rfl
        (by rw [one]; decide) cheap kept⟩

/-- The first relayed vote of the only voter is refused for want of lamports. -/
theorem deposit_falls_short : ∃ past l₀ e₀ l₁ later l, Steps (Step hash env) (genesis 0 lamports) past l₀ ∧
    Step hash env l₀ e₀ l₁ ∧ e₀.tx.call.instruction = some (.createPoll newPoll) ∧
    Steps (Step hash env) l₁ later l ∧
    Ticking (past ++ e₀ :: (later ++ [⟨l, relay 5⟩])) ∧ relayedHashes later 7 = [] ∧
    0 < 3 * newPoll.nVoters.toNat ∧
    ∃ poll state config, Offered hash env l (relay 5) request vote poll state config ∧
      ¬∃ l', PaymentsPass env l vote poll state.fee config.fee l' := by
  have ready : (replay hash env (genesis 0 lamports) (setup ++ create :: [raise])).toOption.map parts =
      some (some payer, some (config 10), some (newPoll.poll (config 0)), some state) := by decide +kernel
  obtain ⟨l, done, offered⟩ := exists_parts ready
  obtain ⟨past, l₀, e₀, l₁, later, before, created, run, isPast, isCreate, isLater⟩ := replay_split done
  refine ⟨past, l₀, e₀, l₁, later, l, before, created, by rw [isCreate]; rfl, run, .of_map ?_,
    ?_, by decide, _, _, _,
    offered, ?_⟩
  · rw [List.map_append, List.map_cons, List.map_append, isPast, isCreate, isLater]
    change (setup ++ create :: ([raise] ++ [relay 5])).Pairwise _
    decide
  · rw [relayedHashes, ← List.flatMap_map Applied.tx, isLater]
    rfl
  · rintro ⟨l', passes⟩
    obtain ⟨l₂, executed⟩ := offered.executes_iff.2 ⟨l', passes.paid, passes.funded, passes.atLeast⟩
    have refused : (replay hash env (genesis 0 lamports)
      (setup ++ create :: [raise] ++ [relay 5])).toOption.isNone := by
      decide +kernel
    rw [replay_append, done] at refused
    simp [replay, executed, bind, Except.bind, Except.toOption] at refused

end OneRelay

end Mootvote.Program
