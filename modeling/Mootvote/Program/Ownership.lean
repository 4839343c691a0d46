import Mootvote.Program.History

set_option autoImplicit false

namespace Mootvote.Program

open Shared

section drain

variable {l : Ledger} {account destination : Address}

theorem Ledger.drain_lamports (distinct : destination ≠ account) :
    (l.drain account destination).lamports destination = l.lamports destination + l.lamports account := by
  simp [drain, Function.update_of_ne distinct]

theorem Ledger.drain_lamports_other {other : Address} (notAccount : other ≠ account)
    (notDestination : other ≠ destination) :
    (l.drain account destination).lamports other = l.lamports other := by
  simp [drain, Function.update_of_ne notAccount, Function.update_of_ne notDestination]

theorem Address.ne_tally (owner : Address) (pollId : UInt64) : owner ≠ .tally pollId owner := by
  intro same
  have smaller := congrArg sizeOf same
  simp only [Address.tally.sizeOf_spec] at smaller
  omega

end drain

section ownership

variable {H : IdealHash Fr} {env : Env} {l l' : Ledger} {e : Applied} {pollId : UInt64} {owner : Address}

def Instruction.resets (pollId : UInt64) (owner : Address) : Instruction → Prop
  | .createTally c => pollId = c.pollId ∧ owner = c.payer
  | _ => False

def Instruction.finishes (pollId : UInt64) (owner : Address) : Instruction → Prop
  | .finishTally f => pollId = f.tallyPollId ∧ owner = f.tallyOwner
  | _ => False

def Instruction.closes (pollId : UInt64) (owner : Address) : Instruction → Prop
  | .closeTally c => pollId = c.pollId ∧ owner = c.owner
  | _ => False

def Tx.does (tx : Tx) (kind : Instruction → Prop) : Prop := ∃ i, tx.call.instruction = some i ∧ kind i

def Tx.signedBy (tx : Tx) (owner : Address) : Prop := owner ∈ tx.signers.map Address.key

/-- The relayer's account comes second, which only the votes have there. -/
theorem Instruction.carries_vote {i : Instruction} {relayer program : Address} {stateId : UInt64}
    {words : List Word} (carried : i.carries relayer (.relayerState program stateId) words = true) :
    (∃ v, i = .vote v) ∨ ∃ v, i = .voteWithRelayer v := by
  cases i with
  | vote v => exact .inl ⟨v, rfl⟩
  | voteWithRelayer v => exact .inr ⟨v, rfl⟩
  | _ => simp [carries, leadingAccounts] at carried

theorem relay_instruction {signers : List Address} {r : ZkRelayer.Relay}
    (done : ZkRelayer.relay H env signers l r = .ok l') :
    (∃ v, r.call = .vote v) ∨ ∃ v, r.call = .voteWithRelayer v := by
  obtain ⟨_, _, _, relayed, _⟩ := ZkRelayer.relay_ok_iff.1 done
  exact Instruction.carries_vote relayed.carried

theorem Step.direct {i : Instruction} (step : Step H env l e l') (called : e.tx.call.instruction = some i)
    (noVote : ∀ v, i ≠ .vote v) (noRelayedVote : ∀ v, i ≠ .voteWithRelayer v) :
    i.execute H env (e.tx.signers.map .key) { l with clock := e.tx.now } = .ok l' := by
  have done := step.done
  unfold Tx.execute at done
  generalize e.tx.call = call at called done
  cases call with
  | mootvote i =>
      cases called
      exact done
  | relay r =>
      cases called
      rcases relay_instruction done with ⟨v, vote⟩ | ⟨v, vote⟩
      · exact absurd vote (noVote v)
      · exact absurd vote (noRelayedVote v)
  | _ => cases called

theorem Step.tally_kept (step : Step H env l e l') (unset : ¬e.tx.does (Instruction.resets pollId owner))
    (unfinished : ¬e.tx.does (Instruction.finishes pollId owner))
    (unclosed : ¬e.tx.does (Instruction.closes pollId owner)) :
    l'.tallies pollId owner = none ↔ l.tallies pollId owner = none := by
  rcases step.outcome with ⟨_, _, tallies, _⟩ | ⟨i, signers, r, called, _, _, tallies, _, effect⟩
  · rw [tallies]
  · rw [← tallies]
    change l'.records.tallies pollId owner = none ↔ _
    generalize l'.records = r' at effect ⊢
    cases effect with
    | createTally c =>
        have other : ¬(pollId = c.pollId ∧ owner = c.payer) := fun own => unset ⟨_, called, own⟩
        rw [Records.setTally_tallies, if_neg other]
    | @finishTally f =>
        have other : ¬(pollId = f.tallyPollId ∧ owner = f.tallyOwner) :=
          fun own => unfinished ⟨_, called, own⟩
        rw [Records.setTally_tallies, if_neg other]
        rfl
    | closeTally c =>
        have other : ¬(pollId = c.pollId ∧ owner = c.owner) := fun own => unclosed ⟨_, called, own⟩
        rw [Records.setTally_tallies, if_neg other]
    | @tallyBatch b tally _ found =>
        rw [Records.setTally_tallies]
        split_ifs with own
        · obtain ⟨rfl, rfl⟩ := own
          simp [found]
        · rfl
    | vote voted | voteWithRelayer _ _ voted =>
        cases voted
        rfl
    | createPoll | initializeConfig | updateConfig | withdrawPoll => rfl

/-- The Tally account of a poll and an owner: who pays for it, who ends it, who gets its lamports. -/
structure TallyOwned (env : Env) (l : Ledger) (tx : Tx) (l' : Ledger) (pollId : UInt64)
    (owner : Address) : Prop where
  funded : l.tallies pollId owner = none → l'.tallies pollId owner ≠ none → tx.signedBy owner ∧
    ∃ paid, ({ l with clock := tx.now } : Ledger).fund env owner (.tally pollId owner) tallySpace = .ok paid ∧
      l'.lamports = paid.lamports
  ended : l.tallies pollId owner ≠ none → l'.tallies pollId owner = none ∨
    tx.does (Instruction.resets pollId owner) →
    tx.signedBy owner ∨ tx.does (Instruction.finishes pollId owner)
  refunded : l.tallies pollId owner ≠ none → l'.tallies pollId owner = none →
    l'.lamports owner = l.lamports owner + l.lamports (.tally pollId owner)

theorem reset_owned (step : Step H env l e l') (reset : e.tx.does (Instruction.resets pollId owner)) :
    TallyOwned env l e.tx l' pollId owner ∧ l'.tallies pollId owner ≠ none := by
  obtain ⟨i, called, own⟩ := reset
  cases i with
  | createTally c =>
      obtain ⟨rfl, rfl⟩ := own
      have done := step.direct called (by simp) (by simp)
      simp only [Instruction.execute, createTally, bind_ok_iff, pure_ok_iff, require_ok_iff,
        decide_eq_true_eq] at done
      obtain ⟨_, signed, paid, funded, rfl⟩ := done
      have stored : (paid.setTally c.pollId c.payer
          (some { tallyHash := c.initialTallyHash, cumulativeMsgHash := 0, root := 0 })).tallies
            c.pollId c.payer ≠ none := by
        simp [Ledger.setTally]
      refine ⟨⟨fun absent _ => ⟨signed, paid, ?_, rfl⟩, fun _ _ => .inl signed, fun _ gone =>
        absurd gone stored⟩, stored⟩
      simp only [absent] at funded
      exact funded
  | _ => cases own

theorem finish_drains (step : Step H env l e l') {f : FinishTally}
    (called : e.tx.call.instruction = some (.finishTally f)) :
    l.tallies f.tallyPollId f.tallyOwner ≠ none ∧ l'.tallies f.tallyPollId f.tallyOwner = none ∧
      f.payer ≠ .tally f.tallyPollId f.tallyOwner ∧
      l'.lamports = (l.drain (.tally f.tallyPollId f.tallyOwner) f.payer).lamports := by
  have done := step.direct called (by simp) (by simp)
  rw [Instruction.execute, finishTally_ok_iff] at done
  obtain ⟨tally, poll, found, _, _, _, _, _, _, distinct, rfl⟩ := done
  exact ⟨ne_of_eq_of_ne found (Option.some_ne_none tally), by simp [Ledger.setTally], distinct, rfl⟩

theorem close_drains (step : Step H env l e l') {c : CloseTally}
    (called : e.tx.call.instruction = some (.closeTally c)) :
    l.tallies c.pollId c.owner ≠ none ∧ l'.tallies c.pollId c.owner = none ∧
      l'.lamports = (l.drain (.tally c.pollId c.owner) c.owner).lamports := by
  have done := step.direct called (by simp) (by simp)
  simp only [Instruction.execute, closeTally, bind_ok_iff, load_ok_iff] at done
  obtain ⟨_, found, closed⟩ := done
  obtain ⟨_, rfl⟩ := Ledger.closeTallyAccount_ok_iff.1 closed
  exact ⟨by simp [found], by simp [Ledger.setTally], rfl⟩

/-- A Tally account stays its creator's exactly when strangers do not close it and finishing it pays the creator. -/
theorem tally_owned_iff {clock : UInt64} {lamports : Address → Nat} {past : List Applied}
    (_ : Steps (Step H env) (genesis clock lamports) past l) (step : Step H env l e l')
    (pollId : UInt64) (owner : Address) :
    TallyOwned env l e.tx l' pollId owner ↔
      (e.tx.does (Instruction.closes pollId owner) → e.tx.signedBy owner) ∧
      ∀ f, e.tx.call.instruction = some (.finishTally f) → pollId = f.tallyPollId ∧ owner = f.tallyOwner →
        f.payer = owner ∨ l.lamports (.tally pollId owner) = 0 := by
  constructor
  · intro owned
    constructor
    · rintro ⟨i, called, own⟩
      cases i with
      | closeTally c =>
          obtain ⟨rfl, rfl⟩ := own
          obtain ⟨before, gone, _⟩ := close_drains step called
          rcases owned.ended before (.inl gone) with signed | ⟨i, other, finishes⟩
          · exact signed
          · cases called.symm.trans other
            exact finishes.elim
      | _ => exact own.elim
    · rintro f called ⟨rfl, rfl⟩
      obtain ⟨before, gone, _, drained⟩ := finish_drains step called
      have refunded := owned.refunded before gone
      by_cases paid : f.payer = f.tallyOwner
      · exact .inl paid
      · rw [drained, Ledger.drain_lamports_other (Address.ne_tally _ _) (Ne.symm paid)] at refunded
        exact .inr (by omega)
  · rintro ⟨signedClose, paidOwner⟩
    -- Only these three instructions create, replace or end a Tally account.
    by_cases resets : e.tx.does (Instruction.resets pollId owner)
    · exact (reset_owned step resets).1
    by_cases finishes : e.tx.does (Instruction.finishes pollId owner)
    · obtain ⟨i, called, own⟩ := id finishes
      cases i with
      | finishTally f =>
          obtain ⟨rfl, rfl⟩ := id own
          obtain ⟨before, gone, distinct, drained⟩ := finish_drains step called
          refine ⟨fun absent => absurd absent before, fun _ _ => .inr finishes, fun _ _ => ?_⟩
          rw [drained]
          rcases paidOwner f called own with paid | none
          · rw [paid, Ledger.drain_lamports (Address.ne_tally _ _)]
          · by_cases paid : f.payer = f.tallyOwner
            · rw [paid, Ledger.drain_lamports (Address.ne_tally _ _)]
            · rw [Ledger.drain_lamports_other (Address.ne_tally _ _) (Ne.symm paid), none, Nat.add_zero]
      | _ => exact own.elim
    by_cases closes : e.tx.does (Instruction.closes pollId owner)
    · obtain ⟨i, called, own⟩ := id closes
      cases i with
      | closeTally c =>
          obtain ⟨rfl, rfl⟩ := id own
          obtain ⟨before, gone, drained⟩ := close_drains step called
          refine ⟨fun absent => absurd absent before, fun _ _ => .inl (signedClose closes), fun _ _ => ?_⟩
          rw [drained, Ledger.drain_lamports (Address.ne_tally _ _)]
      | _ => exact own.elim
    have kept := step.tally_kept resets finishes closes
    refine ⟨fun absent present => absurd (kept.2 absent) present, ?_, fun before gone =>
      absurd (kept.1 gone) before⟩
    rintro before (gone | reset)
    · exact absurd (kept.1 gone) before
    · exact absurd reset resets

end ownership

namespace OneVoter

def closeByStranger : Tx :=
  { now := 11, signers := [22], call := .mootvote (.closeTally { owner := payer, pollId := 7 }) }

def close : Tx := sign 11 (.mootvote (.closeTally { owner := payer, pollId := 7 }))

theorem tally_owned_iff_close : ∃ l e l', Step DoubleCount.hash env l e l' ∧ e.tx = close ∧
    (TallyOwned env l e.tx l' 7 payer ↔ (e.tx.does (Instruction.closes 7 payer) → e.tx.signedBy payer) ∧
      ∀ f, e.tx.call.instruction = some (.finishTally f) → 7 = f.tallyPollId ∧ payer = f.tallyOwner →
        f.payer = payer ∨ l.lamports (.tally 7 payer) = 0) := by
  have recorded : tallyOf (outcome (setup ++ [create 110] ++ [close])) = some [] := by decide +kernel
  obtain ⟨past, l, e, l', _, _, run, step, _, _, isClose, _⟩ := runs_split recorded
  exact ⟨l, e, l', step, isClose, tally_owned_iff run step 7 payer⟩

theorem tally_not_owned : ∃ past l e l', Steps (Step DoubleCount.hash env) (genesis 0 lamports) past l ∧
    Step DoubleCount.hash env l e l' ∧ l.tallies 7 payer ≠ none ∧ l'.tallies 7 payer = none ∧
      ¬e.tx.signedBy payer ∧ ¬e.tx.does (Instruction.finishes 7 payer) := by
  have recorded : tallyOf (outcome (setup ++ [create 110] ++ [closeByStranger])) = some [] := by
    decide +kernel
  obtain ⟨past, l, e, l', _, _, run, step, _, _, isClose, _⟩ := runs_split recorded
  obtain ⟨before, gone, _⟩ := close_drains (c := { owner := payer, pollId := 7 }) step (by rw [isClose]; rfl)
  refine ⟨past, l, e, l', run, step, before, gone, ?_, ?_⟩
  · rw [isClose, Tx.signedBy]
    decide
  · rintro ⟨i, called, finishes⟩
    rw [isClose] at called
    cases called
    exact finishes.elim

end OneVoter

end Mootvote.Program
