import Mootvote.Program.History

set_option autoImplicit false

namespace Mootvote.Program

open Shared

def Poll.terms (poll : Poll) : Poll := { poll with cumulativeMsgHash := 0, tally := [] }

def Tx.closes (id : UInt64) (tx : Tx) : Prop :=
  match tx.call.instruction with
  | some (.finishTally f) => f.pollId = id
  | some (.withdrawPoll w) => w.pollId = id
  | _ => False

def Tx.withdraws (id : UInt64) (tx : Tx) : Prop :=
  match tx.call.instruction with
  | some (.withdrawPoll w) => w.pollId = id
  | _ => False

theorem Poll.votingEndTime_of_terms {poll poll' : Poll} (same : poll'.terms = poll.terms) :
    poll'.votingEndTime = poll.votingEndTime := by
  simp only [terms, Poll.mk.injEq] at same
  exact same.2.2.2.2.2.2.1

theorem Poll.nChoices_of_terms {poll poll' : Poll} (same : poll'.terms = poll.terms) :
    poll'.nChoices = poll.nChoices := by
  simp only [terms, Poll.mk.injEq] at same
  exact same.2.1

section phases

variable {H : IdealHash Fr} {env : Env} {id : UInt64} {poll : Poll}

theorem Effect.keeps_poll {signers : List Address} {r r' : Records} {i : Instruction}
    (effect : Effect H env signers r i r')
    (found : r.polls id = some poll) : ∃ poll', r'.polls id = some poll' ∧ poll'.terms = poll.terms ∧
      (i.accepted id = [] → poll'.cumulativeMsgHash = poll.cumulativeMsgHash) := by
  have voted {pollId : UInt64} {message : EncryptedMessage} {expected : Option Word}
      (voted : Voted H r pollId message expected r') :
      ∃ poll', r'.polls id = some poll' ∧ poll'.terms = poll.terms ∧
        ((if pollId = id then [message] else []) = [] →
          poll'.cumulativeMsgHash = poll.cumulativeMsgHash) := by
    obtain @⟨old, _, cumulativeMsgHash, there⟩ := voted
    by_cases own : pollId = id
    · subst own
      cases there.symm.trans found
      exact ⟨{ poll with cumulativeMsgHash }, Function.update_self _ _ _, rfl, by simp⟩
    · exact ⟨poll, by simp [Function.update_of_ne (Ne.symm own), found], rfl, fun _ => rfl⟩
  cases effect with
  | @createPoll c config _ _ _ absent =>
      have other : id ≠ c.id := by
        rintro rfl
        simp [found] at absent
      exact ⟨poll, (Function.update_of_ne other _ _).trans found, rfl, fun _ => rfl⟩
  | vote accepted => exact voted accepted
  | voteWithRelayer _ _ accepted => exact voted accepted
  | @finishTally f _ old _ there =>
      by_cases own : f.pollId = id
      · subst own
        cases there.symm.trans found
        exact ⟨{ poll with tally := f.tally }, Function.update_self _ _ _, rfl, fun _ => rfl⟩
      · exact ⟨poll, by simp [Function.update_of_ne (Ne.symm own), found], rfl, fun _ => rfl⟩
  | initializeConfig | updateConfig | createTally | tallyBatch | closeTally | withdrawPoll =>
      exact ⟨poll, found, rfl, fun _ => rfl⟩

theorem Step.keeps_poll {l l' : Ledger} {e : Applied} (step : Step H env l e l')
    (found : l.polls id = some poll) :
    ∃ poll', l'.polls id = some poll' ∧ poll'.terms = poll.terms ∧
      (e.tx.accepted id = [] → poll'.cumulativeMsgHash = poll.cumulativeMsgHash) := by
  rcases step.outcome with ⟨_, polls, _⟩ | ⟨i, signers, r, called, _, polls, _, _, effect⟩
  · exact ⟨poll, by rw [polls, found], rfl, fun _ => rfl⟩
  · unfold Tx.accepted
    rw [called]
    exact effect.keeps_poll (polls ▸ found)

theorem terms_run {l l' : Ledger} {es : List Applied} (run : Steps (Step H env) l es l')
    (found : l.polls id = some poll) : ∃ poll', l'.polls id = some poll' ∧ poll'.terms = poll.terms := by
  refine run.invariant (I := fun _ mid => ∃ poll', mid.polls id = some poll' ∧ poll'.terms = poll.terms)
    ⟨poll, found, rfl⟩ ?_
  rintro _ mid e mid' _ ⟨poll₁, found₁, terms₁⟩ step
  obtain ⟨poll₂, found₂, terms₂, _⟩ := step.keeps_poll found₁
  exact ⟨poll₂, found₂, terms₂.trans terms₁⟩

def Event.Fits (polls : UInt64 → Option Poll) : Event → Prop
  | .vote _ => True
  | .createPoll e => ∃ poll, polls e.pollId = some poll ∧ poll.nChoices = e.nChoices
  | .finishTally e => ∃ poll, polls e.pollId = some poll ∧ e.tally.length = poll.nChoices.toNat

theorem Event.Fits.mono {polls polls' : UInt64 → Option Poll} {event : Event} (fits : event.Fits polls)
    (kept : ∀ id poll, polls id = some poll → ∃ poll', polls' id = some poll' ∧ poll'.terms = poll.terms) :
    event.Fits polls' := by
  cases event with
  | vote => trivial
  | createPoll e =>
      obtain ⟨poll, found, choices⟩ := fits
      obtain ⟨poll', found', terms⟩ := kept _ _ found
      exact ⟨poll', found', (Poll.nChoices_of_terms terms).trans choices⟩
  | finishTally e =>
      obtain ⟨poll, found, counts⟩ := fits
      obtain ⟨poll', found', terms⟩ := kept _ _ found
      exact ⟨poll', found', by rw [Poll.nChoices_of_terms terms, counts]⟩

theorem Effect.event_fits {signers : List Address} {r r' : Records} {i : Instruction}
    (effect : Effect H env signers r i r') (ids : ∀ id poll, r.polls id = some poll → poll.id = id) :
    ∀ event ∈ r'.events, event ∈ r.events ∨ event.Fits r'.polls := by
  intro event member
  cases effect with
  | @createPoll c config =>
      rcases List.mem_append.1 member with old | new
      · exact .inl old
      · rw [List.mem_singleton.1 new]
        exact .inr ⟨c.poll config, Function.update_self _ _ _, rfl⟩
  | vote voted | voteWithRelayer _ _ voted =>
      obtain ⟨_⟩ := voted
      rcases List.mem_append.1 member with old | new
      · exact .inl old
      · rw [List.mem_singleton.1 new]
        exact .inr trivial
  | @finishTally f _ poll _ foundPoll _ choices =>
      rcases List.mem_append.1 member with old | new
      · exact .inl old
      · rw [List.mem_singleton.1 new]
        refine .inr ⟨{ poll with tally := f.tally }, ?_, choices⟩
        simp [ids _ _ foundPoll]
  | initializeConfig | updateConfig | createTally | tallyBatch | closeTally | withdrawPoll => exact .inl member

theorem events_fit {clock : UInt64} {lamports : Address → Nat} {es : List Applied} {l : Ledger}
    (run : Steps (Step H env) (genesis clock lamports) es l) : ∀ event ∈ l.events, event.Fits l.polls := by
  refine (run.invariant (I := fun past mid => Logged H past mid.records ∧ ∀ event ∈ mid.events,
    event.Fits mid.polls) ⟨.initial clock lamports, by simp [genesis]⟩ ?_).2
  rintro past mid e mid' _ ⟨logged, fits⟩ step
  refine ⟨logged.step step, fun event member => ?_⟩
  have kept (old : event ∈ mid.events) : event.Fits mid'.polls :=
    (fits event old).mono fun id poll found => by
      obtain ⟨poll', found', terms, _⟩ := step.keeps_poll found
      exact ⟨poll', found', terms⟩
  rcases step.outcome with ⟨_, _, _, events⟩ | ⟨i, signers, r, _, _, polls, _, events, effect⟩
  · exact kept (events ▸ member)
  · rcases effect.event_fits (polls ▸ logged.ids) event member with old | fresh
    · exact kept (events ▸ old)
    · exact fresh

theorem Step.voting {l l' : Ledger} {e : Applied} (step : Step H env l e l') (found : l.polls id = some poll)
    (accepted : e.tx.accepted id ≠ []) : poll.votingStartTime ≤ e.tx.now ∧ e.tx.now ≤ poll.votingEndTime := by
  rcases step.outcome with ⟨called, _⟩ | ⟨i, signers, r, called, clock, polls, _, _, effect⟩
  · rw [Tx.accepted, called] at accepted
    exact absurd rfl accepted
  · have inTime {pollId : UInt64} {message : EncryptedMessage} {expected : Option Word} {r' : Records}
        (own : pollId = id) (voted : Voted H r pollId message expected r') :
        poll.votingStartTime ≤ e.tx.now ∧ e.tx.now ≤ poll.votingEndTime := by
      subst own
      obtain ⟨there, started, running⟩ := voted
      rw [polls, found] at there
      cases there
      rw [← clock]
      exact ⟨started, running⟩
    rw [Tx.accepted, called] at accepted
    generalize l'.records = r' at effect
    cases effect with
    | vote voted => exact inTime (by simpa [Instruction.accepted] using accepted) voted
    | voteWithRelayer _ _ voted => exact inTime (by simpa [Instruction.accepted] using accepted) voted
    | createPoll | finishTally | initializeConfig | updateConfig | createTally | tallyBatch | closeTally
      | withdrawPoll => exact absurd rfl accepted

theorem ended_run {l l' : Ledger} {es : List Applied} (run : Steps (Step H env) l es l')
    (found : l.polls id = some poll) (ended : ∀ e ∈ es, poll.votingEndTime < e.tx.now) :
    accepted es id = [] ∧ ∃ poll', l'.polls id = some poll' ∧ poll'.terms = poll.terms ∧
      poll'.cumulativeMsgHash = poll.cumulativeMsgHash := by
  refine run.invariant (I := fun past mid => accepted past id = [] ∧ ∃ poll', mid.polls id = some poll' ∧
    poll'.terms = poll.terms ∧ poll'.cumulativeMsgHash = poll.cumulativeMsgHash) ⟨rfl, poll,
      found, rfl, rfl⟩ ?_
  rintro past mid e mid' member ⟨silent, poll₁, found₁, terms₁, digest₁⟩ step
  have sameEnd : poll₁.votingEndTime = poll.votingEndTime := Poll.votingEndTime_of_terms terms₁
  have none : e.tx.accepted id = [] := by
    by_contra some
    have inTime := (step.voting found₁ some).2
    rw [sameEnd] at inTime
    exact absurd inTime (UInt64.not_le.2 (ended e member))
  obtain ⟨poll₂, found₂, terms₂, digest₂⟩ := step.keeps_poll found₁
  refine ⟨by rw [accepted_snoc, silent, none, List.nil_append], poll₂, found₂, terms₂.trans terms₁, ?_⟩
  exact (digest₂ none).trans digest₁

/-- When a poll is closed its voting is over, except in the last second of a withdrawal. -/
theorem Step.closed {l l' : Ledger} {e : Applied} (step : Step H env l e l') (closes : e.tx.closes id) :
    ∃ poll, l.polls id = some poll ∧ poll.votingEndTime ≤ e.tx.now ∧
      (e.tx.now = poll.votingEndTime → e.tx.withdraws id) := by
  unfold Tx.closes at closes
  unfold Tx.withdraws
  rcases step.outcome with ⟨called, _⟩ | ⟨i, signers, r, called, clock, polls, _, _, effect⟩
  · rw [called] at closes
    exact closes.elim
  · rw [called] at closes ⊢
    generalize l'.records = r' at effect
    cases effect with
    | finishTally _ foundPoll ended =>
        cases closes
        rw [clock] at ended
        exact ⟨_, polls ▸ foundPoll, UInt64.le_of_lt ended,
          fun same => absurd ended (by rw [same]; exact UInt64.lt_irrefl _)⟩
    | withdrawPoll foundPoll _ ended =>
        cases closes
        rw [clock] at ended
        exact ⟨_, polls ▸ foundPoll, ended, fun _ => rfl⟩
    | createPoll | vote | voteWithRelayer | initializeConfig | updateConfig | createTally | tallyBatch | closeTally =>
        exact closes.elim

/-- After a poll is closed nothing is accepted for it, if no deposit is withdrawn in the last second of voting. -/
theorem no_vote_after_close {l l₁ l₂ : Ledger} {e : Applied} {later : List Applied} (step : Step H env l e l₁)
    (closes : e.tx.closes id) (run : Steps (Step H env) l₁ later l₂) (ticking : Ticking (e :: later))
    (afterEnd : e.tx.withdraws id → ∀ poll, l.polls id = some poll → e.tx.now ≠ poll.votingEndTime) :
    accepted later id = [] ∧ ∃ poll poll', l₁.polls id = some poll ∧ l₂.polls id = some poll' ∧
      poll'.cumulativeMsgHash = poll.cumulativeMsgHash := by
  obtain ⟨poll, found, reached, last⟩ := step.closed closes
  have ended : poll.votingEndTime < e.tx.now := by
    rcases UInt64.lt_or_eq_of_le reached with before | same
    · exact before
    · exact absurd same.symm (afterEnd (last same.symm) poll found)
  obtain ⟨poll₁, found₁, terms, _⟩ := step.keeps_poll found
  have sameEnd : poll₁.votingEndTime = poll.votingEndTime := Poll.votingEndTime_of_terms terms
  have past : ∀ e' ∈ later, poll₁.votingEndTime < e'.tx.now := by
    intro e' member
    rw [sameEnd]
    exact UInt64.lt_of_lt_of_le ended (List.rel_of_pairwise_cons ticking member)
  obtain ⟨silent, poll₂, found₂, _, digest⟩ := ended_run run found₁ past
  exact ⟨silent, poll₁, poll₂, found₁, found₂, digest⟩

end phases

namespace OneVoter

def withdraw (now : UInt64) : Tx := sign now
    (.mootvote (.withdrawPoll { feeDestination := payer, pollId := 7 }))

theorem no_vote_after_close_finished : ∃ l₁ later l₂, Steps (Step DoubleCount.hash env) l₁ later l₂ ∧
    later.map Applied.tx = [withdraw 12] ∧ accepted later 7 = [] ∧ ∃ poll poll', l₁.polls 7 = some poll ∧
      l₂.polls 7 = some poll' ∧ poll'.cumulativeMsgHash = poll.cumulativeMsgHash := by
  have recorded : tallyOf (outcome (setup ++ [cast 5, create 110, count] ++ finish :: [withdraw 12])) =
    some [1] := by
    decide +kernel
  obtain ⟨past, l, e, l₁, later, l₂, _, step, run, _, isFinish, back, _⟩ := runs_split recorded
  have ticking : Ticking (e :: later) := .of_map (by rw [List.map_cons, isFinish, back]; decide)
  refine ⟨l₁, later, l₂, run, back, no_vote_after_close step ?_ run ticking ?_⟩
  · rw [isFinish]
    rfl
  · rw [isFinish]
    exact False.elim

/-- In the last second of voting the deposit is withdrawn and a vote is accepted after that. -/
theorem vote_after_withdrawal : ∃ past l e l₁ later l₂,
    Steps (Step DoubleCount.hash env) (genesis 0 lamports) past l ∧ Step DoubleCount.hash env l e l₁ ∧
      e.tx.withdraws 7 ∧ Steps (Step DoubleCount.hash env) l₁ later l₂ ∧ Ticking (past ++ e :: later) ∧
      accepted later 7 = [message] := by
  have recorded : tallyOf (outcome (setup ++ withdraw 10 :: [cast 10])) = some [] := by decide +kernel
  obtain ⟨past, l, e, l₁, later, l₂, before, step, run, front, isWithdraw, back, _⟩ := runs_split recorded
  refine ⟨past, l, e, l₁, later, l₂, before, step, ?_, run, .of_map ?_, ?_⟩
  · rw [isWithdraw]
    rfl
  · rw [List.map_append, List.map_cons, front, isWithdraw, back]
    decide
  · rw [accepted_eq, back]
    rfl

end OneVoter

end Mootvote.Program
