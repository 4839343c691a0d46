import Mootvote.Program.Deposit
import Mootvote.Shared.Balances

set_option autoImplicit false

/-!
# Where lamports go

Transactions move lamports between accounts; the programs' own accounts pay for few reasons.
-/

namespace Mootvote.Program

open Shared Shared.Balances

section supply

variable {H : IdealHash Fr} {env : Env} {signers : List Address} {l l' l'' : Ledger}

def Ledger.Conserved (l l' : Ledger) : Prop := ∃ touched, Moved touched l.lamports l'.lamports

/-- `transfer` with the overflow check of its `+=`. -/
def Ledger.checkedTransfer (l : Ledger) (source destination : Address) (amount : Nat) : Outcome Ledger := do
  let left ← (if l.lamports source < amount then .error .insufficientFunds
    else .ok (l.lamports source - amount))
  let taken := Function.update l.lamports source left
  let given ← checked (taken destination + amount)
  return { l with lamports := Function.update taken destination given }

namespace Ledger

theorem Conserved.of_eq (same : l'.lamports = l.lamports) : l.Conserved l' := by
  refine ⟨∅, ?_⟩
  rw [same]
  exact .refl _

theorem Conserved.refl (l : Ledger) : l.Conserved l := .of_eq rfl

theorem Conserved.trans (first : l.Conserved l') (second : l'.Conserved l'') : l.Conserved l'' := by
  obtain ⟨touched, moved⟩ := first
  obtain ⟨touched', moved'⟩ := second
  exact ⟨_, moved.trans moved'⟩

theorem transfer_conserved {source destination : Address} {amount : Nat}
    (done : l.transfer source destination amount = .ok l') : l.Conserved l' := by
  have enough := transfer_enough done
  unfold transfer at done
  rw [if_neg (Nat.not_lt.2 enough)] at done
  cases done
  exact ⟨_, .of_move enough⟩

theorem fund_conserved {payer account : Address} {space : Nat}
    (done : l.fund env payer account space = .ok l') :
    l.Conserved l' := transfer_conserved done

theorem drain_conserved (account destination : Address) : l.Conserved (l.drain account destination) := by
  have moved : Moved {account, destination} l.lamports
      (move l.lamports account destination (l.lamports account)) := .of_move le_rfl
  refine ⟨{account, destination}, ?_⟩
  simpa [move, drain] using moved

theorem closeTallyAccount_conserved {pollId : UInt64} {owner destination : Address}
    (done : l.closeTallyAccount pollId owner destination = .ok l') : l.Conserved l' := by
  obtain ⟨_, rfl⟩ := closeTallyAccount_ok_iff.1 done
  have drained : l.Conserved (l.drain (.tally pollId owner) destination) := drain_conserved _ _
  exact drained

end Ledger

theorem createRelayerState_conserved {programSigner : Address} {c : ZkRelayer.CreateRelayerState}
    (done : ZkRelayer.createRelayerState env signers l mootvoteId programSigner c = .ok l') :
    l.Conserved l' := by
  simp only [ZkRelayer.createRelayerState, bind_ok_iff, pure_ok_iff] at done
  obtain ⟨_, _, _, _, _, _, l₁, funded, _, _, _, _, rfl⟩ := done
  have paid : l.Conserved l₁ := Ledger.fund_conserved funded
  exact paid

theorem Instruction.conserved {i : Instruction} (done : i.execute H env signers l = .ok l') :
    l.Conserved l' := by
  cases i with
  | initializeConfig i =>
      simp only [execute, Program.initializeConfig, bind_ok_iff, pure_ok_iff] at done
      obtain ⟨_, _, _, _, l₁, funded, rfl⟩ := done
      have paid : l.Conserved l₁ := Ledger.fund_conserved funded
      exact paid
  | updateConfig u =>
      simp only [execute, Program.updateConfig, bind_ok_iff, pure_ok_iff] at done
      obtain ⟨_, _, _, _, _, _, rfl⟩ := done
      exact .of_eq rfl
  | createPoll c =>
      simp only [execute, Program.createPoll, bind_ok_iff, pure_ok_iff] at done
      obtain ⟨_, _, _, _, _, _, l₁, funded, _, _, _, _, _, _, _, _, l₂, paid, l₃, created, rfl⟩ := done
      have first := Ledger.fund_conserved funded
      have second : (l₁.setPoll c.id _).Conserved l₂ := Ledger.transfer_conserved paid
      have third := createRelayerState_conserved created
      exact (first.trans second).trans third
  | vote v =>
      simp only [execute, Program.vote, bind_ok_iff] at done
      obtain ⟨_, _, _, _, _, _, _, _, _, _, l₁, first, l₂, second, voted⟩ := done
      have counted : l₂.Conserved l' := .of_eq (voteCommon_voted voted).2
      exact ((Ledger.transfer_conserved first).trans (Ledger.transfer_conserved second)).trans counted
  | voteWithRelayer v =>
      obtain ⟨_, _, _, _, _, _, _, _, _, _, m, paid, voted⟩ := voteWithRelayer_ok_iff.1 done
      simp only [VoteWithRelayer.pay, bind_ok_iff] at paid
      obtain ⟨l₁, first, second⟩ := paid
      have counted : m.Conserved l' := .of_eq (voteCommon_voted voted).2
      exact ((Ledger.transfer_conserved first).trans (Ledger.transfer_conserved second)).trans counted
  | createTally c =>
      simp only [execute, Program.createTally, bind_ok_iff, pure_ok_iff] at done
      obtain ⟨_, _, l₁, funded, rfl⟩ := done
      cases found : l.tallies c.pollId c.payer with
      | none =>
          simp only [found] at funded
          have paid : l.Conserved l₁ := Ledger.fund_conserved funded
          exact paid
      | some tally =>
          simp only [found] at funded
          cases funded
          exact .of_eq rfl
  | tallyBatch b =>
      simp only [execute, Program.tallyBatch, bind_ok_iff, pure_ok_iff] at done
      obtain ⟨_, _, _, _, _, _, rfl⟩ := done
      exact .of_eq rfl
  | finishTally f =>
      obtain ⟨_, _, _, _, _, _, _, _, _, _, rfl⟩ := finishTally_ok_iff.1 done
      have drained : l.Conserved (l.drain (.tally f.tallyPollId f.tallyOwner) f.payer) :=
        Ledger.drain_conserved _ _
      exact drained
  | closeTally c =>
      simp only [execute, Program.closeTally, bind_ok_iff] at done
      obtain ⟨_, _, closed⟩ := done
      exact Ledger.closeTallyAccount_conserved closed
  | withdrawPoll w =>
      simp only [execute, Program.withdrawPoll, bind_ok_iff] at done
      obtain ⟨_, _, _, _, _, _, _, _, paid⟩ := done
      exact Ledger.transfer_conserved paid

theorem Call.conserved {call : Call} (done : call.execute H env signers l = .ok l') : l.Conserved l' := by
  cases call with
  | mootvote i => exact Instruction.conserved done
  | relay q =>
      obtain ⟨state, _, _, _, called, _⟩ := ZkRelayer.relay_ok_iff.1 done
      have relayed := Instruction.conserved called
      exact relayed
  | initializeRelayer i =>
      simp only [execute, ZkRelayer.initializeConfig, bind_ok_iff, pure_ok_iff] at done
      obtain ⟨_, _, _, _, l₁, funded, rfl⟩ := done
      have paid : l.Conserved l₁ := Ledger.fund_conserved funded
      exact paid
  | updateRelayer u =>
      simp only [execute, ZkRelayer.updateConfig, bind_ok_iff, pure_ok_iff] at done
      obtain ⟨_, _, _, _, _, _, _, _, l₁, paid, rfl⟩ := done
      have moved : l.Conserved l₁ := by
        split_ifs at paid
        · exact Ledger.transfer_conserved paid
        · exact Ledger.transfer_conserved paid
      exact moved
  | createRelayerState programSigner c => exact createRelayerState_conserved done
  | systemTransfer source destination amount =>
      simp only [execute, bind_ok_iff] at done
      obtain ⟨_, _, paid⟩ := done
      exact Ledger.transfer_conserved paid

theorem Step.conserved {e : Applied} (step : Step H env l e l') : l.Conserved l' := by
  have executed := Call.conserved step.done
  exact executed

theorem conserved_run {es : List Applied} (run : Steps (Step H env) l es l') : l.Conserved l' := by
  induction run with
  | nil => exact .refl _
  | cons step rest ih => exact step.conserved.trans ih

theorem Ledger.Conserved.fits (conserved : l.Conserved l')
    (fits : ∀ accounts : Finset Address, accounts.sum l.lamports < 2 ^ 64) (accounts : Finset Address) :
    accounts.sum l'.lamports < 2 ^ 64 := by
  obtain ⟨touched, moved⟩ := conserved
  exact (moved.sum_le accounts).trans_lt (fits _)

theorem Ledger.checkedTransfer_eq (fits : ∀ accounts : Finset Address, accounts.sum l.lamports < 2 ^ 64)
    (source destination : Address) (amount : Nat) :
    l.checkedTransfer source destination amount = l.transfer source destination amount := by
  unfold checkedTransfer transfer
  by_cases short : l.lamports source < amount
  · rw [if_pos short, if_pos short]
    rfl
  · rw [if_neg short, if_neg short]
    have moved : Moved {source, destination} l.lamports (move l.lamports source destination amount) :=
      .of_move (Nat.not_lt.1 short)
    -- The destination alone ends with no more than there ever was in all.
    have small := (moved.sum_le {destination}).trans_lt (fits _)
    rw [Finset.sum_singleton] at small
    simp only [move, Function.update_self] at small
    simp only [bind, Except.bind, checked, if_pos small]
    rfl

/-- Lamports only move, so that no `transfer` of a run overflows. -/
theorem no_transfer_overflows {clock : UInt64} {lamports : Address → Nat} {es : List Applied}
    (fits : ∀ accounts : Finset Address, accounts.sum lamports < 2 ^ 64)
    (run : Steps (Step H env) (genesis clock lamports) es l) :
    (∃ touched, Moved touched lamports l.lamports) ∧
      ∀ mid, l.Conserved mid → ∀ source destination amount,
        mid.checkedTransfer source destination amount = mid.transfer source destination amount := by
  have conserved := conserved_run run
  refine ⟨conserved, fun mid later source destination amount => ?_⟩
  exact Ledger.checkedTransfer_eq ((conserved.trans later).fits fits) source destination amount

end supply

section spending

variable {H : IdealHash Fr} {env : Env} {l l' : Ledger} {e : Applied}

inductive Spends (env : Env) (l : Ledger) (tx : Tx) (l' : Ledger) : Address → Prop
  -- At most both fees of one relayed vote, in the voting window, that the relayer's fee key signed for.
  | relayed {q : ZkRelayer.Relay} {v : VoteWithRelayer} {poll : Poll} {config : PlatformConfig}
      {relayerConfig : ZkRelayerConfig} {state : RelayerState} (relay : tx.call = .relay q)
      (call : q.call = .voteWithRelayer v) (foundPoll : l.polls v.pollId = some poll)
      (foundConfig : l.platformConfig = some config) (foundRelayer : l.relayerConfig = some relayerConfig)
      (signed : tx.signedBy relayerConfig.feeKey) (relayed : ZkRelayer.Relayed env l.records q state)
      (inTime : poll.votingStartTime ≤ tx.now ∧ tx.now ≤ poll.votingEndTime)
      (bounded : l.lamports (.poll v.pollId) ≤
        l'.lamports (.poll v.pollId) + state.fee.toNat + config.fee.toNat) :
      Spends env l tx l' (.poll v.pollId)
  -- All above the rent goes to the poll's own fee destination, once voting is over.
  | withdrawn {w : WithdrawPoll} {poll : Poll} (call : tx.call = .mootvote (.withdrawPoll w))
      (foundPoll : l.polls w.pollId = some poll) (ended : poll.votingEndTime ≤ tx.now)
      (left : l'.lamports (.poll w.pollId) = poll.rent env)
      (received : l'.lamports poll.feeDestination + poll.rent env =
        l.lamports poll.feeDestination + l.lamports (.poll w.pollId)) :
      Spends env l tx l' (.poll w.pollId)
  | tallyEnded {pollId : UInt64} {owner : Address} (existed : l.tallies pollId owner ≠ none)
      (gone : l'.tallies pollId owner = none) (emptied : l'.lamports (.tally pollId owner) = 0) :
      Spends env l tx l' (.tally pollId owner)
  | endpoint {u : ZkRelayer.UpdateConfig} {relayerConfig : ZkRelayerConfig}
    (call : tx.call = .updateRelayer u)
      (foundRelayer : l.relayerConfig = some relayerConfig) (signed : tx.signedBy relayerConfig.admin)
      (shorter : u.endpoint.utf8ByteSize ≤ relayerConfig.endpoint.utf8ByteSize) :
      Spends env l tx l' .relayerConfig

theorem Ledger.drain_emptied {account destination : Address} (distinct : destination ≠ account) :
    (l.drain account destination).lamports account = 0 := by
  simp [drain, distinct.symm]

theorem Ledger.transfer_sum {source destination : Address} {amount : Nat}
    (done : l.transfer source destination amount = .ok l') (distinct : destination ≠ source) :
    l'.lamports source + amount = l.lamports source ∧
      l'.lamports destination = l.lamports destination + amount := by
  have enough := transfer_enough done
  have received := transfer_destination done distinct
  unfold transfer at done
  rw [if_neg (Nat.not_lt.2 enough)] at done
  cases done
  refine ⟨?_, received⟩
  simp only [Function.update_of_ne distinct.symm, Function.update_self]
  omega

theorem VoteWithRelayer.pay_paid {v : VoteWithRelayer} {fee platformFee : UInt64}
    (done : v.pay fee platformFee l = .ok l') : l.PaidBy [.poll v.pollId] l' := by
  simp only [pay, bind_ok_iff] at done
  obtain ⟨l₁, first, second⟩ := done
  exact (Ledger.transfer_paid first).2.trans (Ledger.transfer_paid second).2

theorem Step.relay_spends {q : ZkRelayer.Relay} (step : Step H env l e l') (relay : e.tx.call = .relay q)
    {a : Address} (derived : ∀ bytes, a ≠ .key bytes) (less : l'.lamports a < l.lamports a) :
    Spends env l e.tx l' a := by
  have done := step.done
  rw [Tx.execute, relay, Call.execute] at done
  obtain ⟨state, ⟨relayerConfig, foundRelayer, feeKey⟩, signed, relayed, called, _⟩ :=
    ZkRelayer.relay_ok_iff.1 done
  rcases relay_instruction done with ⟨v, isVote⟩ | ⟨v, isVote⟩
  · -- The relayer itself pays for a plain vote.
    have payer : v.payer = q.relayer := by
      have carried := relayed.carried
      rw [isVote] at carried
      simp only [Instruction.carries, Instruction.leadingAccounts, Bool.and_eq_true, decide_eq_true_eq,
        List.cons.injEq] at carried
      exact carried.1.1
    rw [isVote, Instruction.execute] at called
    simp only [vote, bind_ok_iff] at called
    obtain ⟨_, _, _, _, _, _, _, _, _, _, l₁, first, l₂, second, voted⟩ := called
    have paid := (Ledger.transfer_paid first).2.trans (Ledger.transfer_paid second).2
    have kept := paid a (by
      obtain ⟨bytes, isKey⟩ := Tx.key_of_signed signed
      simp [payer, isKey, derived bytes])
    rw [← (voteCommon_voted voted).2] at kept
    exact absurd less (Nat.not_lt.2 kept)
  · have instruction : e.tx.call.instruction = some (.voteWithRelayer v) := by
      rw [relay, Call.instruction, isVote]
    obtain ⟨config, poll, state', m, foundConfig, foundPoll, foundState, paid, lamports⟩ :=
      step.vote_paid instruction
    obtain ⟨q', state'', poll', vote⟩ := step.relayedVote instruction
    cases vote.relay.symm.trans relay
    cases vote.foundPoll.symm.trans foundPoll
    have sameState : state' = state := by
      have found : l.relayerStates mootvoteId q.stateId = some state := relayed.found
      rw [vote.stateId] at found
      exact Option.some.inj (foundState.symm.trans found)
    subst sameState
    -- Of the derived accounts only the poll pays for a vote with a relayer.
    have isPoll : a = .poll v.pollId := by
      by_contra other
      have kept := VoteWithRelayer.pay_paid paid a (by simpa using other)
      rw [← lamports] at kept
      exact absurd less (Nat.not_lt.2 kept)
    subst isPoll
    have bounded := VoteWithRelayer.pay_poll paid
    rw [← lamports] at bounded
    refine .relayed relay isVote foundPoll foundConfig foundRelayer ?_
      (relayed.of_relayerStates rfl) ?_ bounded
    · rw [← feeKey]
      exact signed
    · refine step.voting foundPoll ?_
      simp [Tx.accepted, instruction, Instruction.accepted]

theorem Step.withdraw_spends {w : WithdrawPoll} (step : Step H env l e l')
    (called : e.tx.call = .mootvote (.withdrawPoll w))
    (less : l'.lamports (.poll w.pollId) < l.lamports (.poll w.pollId)) :
    Spends env l e.tx l' (.poll w.pollId) := by
  have done := step.done
  rw [Tx.execute, called, Call.execute, Instruction.execute] at done
  simp only [withdrawPoll, bind_ok_iff, require_ok_iff, load_ok_iff, checkedSub_ok_iff,
    decide_eq_true_eq] at done
  obtain ⟨poll, foundPoll, _, own, _, ended, amount, ⟨enough, isAmount⟩, paid⟩ := done
  -- To itself a poll pays nothing.
  have distinct : w.feeDestination ≠ .poll w.pollId := by
    intro same
    rw [same] at paid
    have conserved := Ledger.transfer_source paid
    have enough' := Ledger.transfer_enough paid
    unfold Ledger.transfer at paid
    rw [if_neg (Nat.not_lt.2 enough')] at paid
    cases paid
    simp only [Function.update_self] at less
    exact absurd less (by omega)
  obtain ⟨left, received⟩ := Ledger.transfer_sum paid distinct
  refine .withdrawn called foundPoll ended ?_ ?_
  · change _ = env.minimumBalance _
    change _ = l.lamports _ at left
    change amount = l.lamports _ - _ at isAmount
    change _ ≤ l.lamports _ at enough
    omega
  · rw [own, received]
    change l.lamports _ + amount + env.minimumBalance _ = _
    change amount = l.lamports _ - _ at isAmount
    change _ ≤ l.lamports _ at enough
    omega

theorem Step.endpoint_spends {u : ZkRelayer.UpdateConfig} (step : Step H env l e l')
    (called : e.tx.call = .updateRelayer u) (less : l'.lamports .relayerConfig < l.lamports .relayerConfig) :
    Spends env l e.tx l' .relayerConfig := by
  have done := step.done
  rw [Tx.execute, called, Call.execute] at done
  simp only [ZkRelayer.updateConfig, bind_ok_iff, pure_ok_iff, require_ok_iff, load_ok_iff,
    decide_eq_true_eq] at done
  obtain ⟨_, payer, _, signed, relayerConfig, foundRelayer, _, admin, l₁, paid, rfl⟩ := done
  by_cases longer : relayerConfig.endpoint.utf8ByteSize < u.endpoint.utf8ByteSize
  · rw [if_pos longer] at paid
    have kept := (Ledger.transfer_paid paid).2 .relayerConfig (by
      obtain ⟨bytes, isKey⟩ := Tx.key_of_signed payer
      simp [isKey])
    exact absurd less (Nat.not_lt.2 kept)
  · refine .endpoint called foundRelayer ?_ (Nat.not_lt.1 longer)
    rw [admin]
    exact signed

theorem Step.spends (step : Step H env l e l') {a : Address} (derived : ∀ bytes, a ≠ .key bytes)
    (less : l'.lamports a < l.lamports a) : Spends env l e.tx l' a := by
  have source : a ∈ e.tx.call.sources := by
    by_contra other
    refine absurd less (Nat.not_lt.2 (step.paid a ?_))
    simp only [List.mem_append, List.mem_map, not_or]
    refine ⟨?_, other⟩
    rintro ⟨bytes, _, isKey⟩
    exact derived bytes isKey.symm
  cases called : e.tx.call with
  | relay q => exact step.relay_spends called derived less
  | updateRelayer u =>
      rw [called, Call.sources, List.mem_singleton] at source
      subst source
      exact step.endpoint_spends called less
  | mootvote i =>
      have instruction : e.tx.call.instruction = some i := by rw [called, Call.instruction]
      rw [called, Call.sources] at source
      cases i with
      | voteWithRelayer v =>
          obtain ⟨_, _, _, vote⟩ := step.relayedVote instruction
          cases vote.relay.symm.trans called
      | finishTally f =>
          obtain ⟨existed, gone, distinct, lamports⟩ := finish_drains step instruction
          rw [Instruction.sources, List.mem_singleton] at source
          subst source
          refine .tallyEnded existed gone ?_
          rw [lamports, Ledger.drain_emptied distinct]
      | closeTally c =>
          obtain ⟨existed, gone, lamports⟩ := close_drains step instruction
          rw [Instruction.sources, List.mem_singleton] at source
          subst source
          refine .tallyEnded existed gone ?_
          rw [lamports, Ledger.drain_emptied (Address.ne_tally _ _)]
      | withdrawPoll w =>
          rw [Instruction.sources, List.mem_singleton] at source
          subst source
          exact step.withdraw_spends called less
      | _ => simp [Instruction.sources] at source
  | _ => simp [called, Call.sources] at source

/-- What an account of the programs loses over a run, single transactions took, each with its reason. -/
theorem spent_run {es : List Applied} (run : Steps (Step H env) l es l') {a : Address}
    (derived : ∀ bytes, a ≠ .key bytes) :
    ∃ spent : List (Applied × Nat), (spent.map Prod.fst).Sublist es ∧
      (∀ p ∈ spent, ∃ mid, Step H env p.1.before p.1 mid ∧ p.1.before.lamports a = mid.lamports a + p.2 ∧
        Spends env p.1.before p.1.tx mid a) ∧
      l.lamports a ≤ l'.lamports a + (spent.map Prod.snd).sum := by
  induction run with
  | nil => exact ⟨[], List.Sublist.refl _, by simp, by simp⟩
  | @cons l mid l' e es step rest ih =>
      obtain ⟨spent, inside, reasons, bound⟩ := ih
      by_cases less : mid.lamports a < l.lamports a
      · have before := step.before
        refine ⟨(e, l.lamports a - mid.lamports a) :: spent, inside.cons_cons e, fun p member => ?_, ?_⟩
        · rcases List.mem_cons.1 member with rfl | later
          · simp only [before]
            exact ⟨mid, step, by omega, step.spends derived less⟩
          · exact reasons p later
        · simp only [List.map_cons, List.sum_cons]
          omega
      · exact ⟨spent, inside.cons e, reasons, by omega⟩

end spending

namespace OneRelay

theorem exists_run : ∃ es l, Steps (Step hash env) (genesis 0 lamports) es l ∧ l.lamports (.poll 7) = 2 := by
  have paid : (replay hash env (genesis 0 lamports) (setup ++ [create, relay 5])).toOption.map
      (fun l => l.lamports (.poll 7)) = some 2 := by decide +kernel
  cases result : replay hash env (genesis 0 lamports) (setup ++ [create, relay 5]) with
  | error error =>
      rw [result] at paid
      cases paid
  | ok l =>
      rw [result] at paid
      obtain ⟨es, run, _⟩ := replay_steps result
      exact ⟨es, l, run, Option.some.inj paid⟩

theorem no_transfer_overflows_relay : ∃ l : Ledger, (∃ touched, Moved touched lamports l.lamports) ∧
    l.lamports (.poll 7) = 2 ∧
    ∀ mid, l.Conserved mid → ∀ source destination amount,
      mid.checkedTransfer source destination amount = mid.transfer source destination amount := by
  obtain ⟨es, l, run, left⟩ := exists_run
  have fits (accounts : Finset Address) : accounts.sum lamports < 2 ^ 64 := by
    unfold lamports
    rw [Finset.sum_ite_eq']
    split_ifs <;> decide
  obtain ⟨moved, unchecked⟩ := no_transfer_overflows fits run
  exact ⟨l, moved, left, unchecked⟩

theorem spent_run_relays : ∃ later l₁ l, Steps (Step hash env) l₁ later l ∧ l₁.lamports (.poll 7) = 3 ∧
    l.lamports (.poll 7) = 1 ∧
    ∃ spent : List (Applied × Nat), (spent.map Prod.fst).Sublist later ∧
      (∀ p ∈ spent, ∃ mid, Step hash env p.1.before p.1 mid ∧
        p.1.before.lamports (.poll 7) = mid.lamports (.poll 7) + p.2 ∧
        Spends env p.1.before p.1.tx mid (.poll 7)) ∧
      l₁.lamports (.poll 7) ≤ l.lamports (.poll 7) + (spent.map Prod.snd).sum := by
  have left : (replay hash env (genesis 0 lamports) (setup ++ create :: [relay 5, nextRelay 6])).toOption.map
      (fun l => l.lamports (.poll 7)) = some 1 := by decide +kernel
  cases done : replay hash env (genesis 0 lamports) (setup ++ create :: [relay 5, nextRelay 6]) with
  | error error =>
      rw [done] at left
      cases left
  | ok l =>
      rw [done] at left
      obtain ⟨past, l₀, e₀, l₁, later, before, created, run, isPast, isCreate, _⟩ := replay_split done
      have deposited : l₁.lamports (.poll 7) = 3 :=
        shown_of_steps (fun l => l.lamports (.poll 7)) (setup ++ [create]) (before.snoc created)
          (by rw [List.map_append, isPast, List.map_cons, isCreate, List.map_nil]) (by decide +kernel)
      exact ⟨later, l₁, l, run, deposited, Option.some.inj left, spent_run run (by simp)⟩

end OneRelay

end Mootvote.Program
