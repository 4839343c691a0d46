import Mootvote.Program.Phases

set_option autoImplicit false

/-!
# The recorded results

`finish_tally` compares two digests and opens a commitment that `create_tally` took from its caller.
The commitment is the circuit's as soon as one proof was applied to the Tally account.
-/

namespace Mootvote.Program

open Shared

section recorded

variable {H : IdealHash Fr} {G : Gadgets H} {env : Env} {extract : Proof → List Word → Batch}

def EncryptedMessage.Opens (G : Gadgets H) (p : EncryptedMessage) (ballot : Ballot) : Prop :=
  ∃ m, Encodes m p ∧ G.Opens m ballot

/-- The choices are counted as the reference tally of the messages counts them, one per nullifier. -/
def ReferenceTally (G : Gadgets H) (messages : List EncryptedMessage) (tally : List UInt64) : Prop :=
  ∃ ballots, List.Forall₂ (EncryptedMessage.Opens G) messages ballots ∧ tally.map UInt64.toNat =
    (List.range tally.length).map fun k => (reference H (fun nu => nu) ballots).count (k + 1 : Nat)

/-- The proofs use the intended leaf keys, and no two nullifiers among their ballots share one. -/
structure LeafPerNullifier (ws : List Batch) : Prop where
  intended : LeafKeysAsIntended ws
  apart : ∀ b ∈ ws.flatMap Mootvote.Tally.ballots, ∀ b' ∈ ws.flatMap Mootvote.Tally.ballots,
    reducedNu 64 b.nu = reducedNu 64 b'.nu → b.nu = b'.nu

/-- The commitment was made by a proof, or nothing is claimed to be counted. -/
def ProvedOrZero (env : Env) (extract : Proof → List Word → Batch) (past : List Applied)
    (f : FinishTally) : Prop :=
  batchesSince env extract past f.tallyPollId f.tallyOwner ≠ [] ∨ ∀ n ∈ f.tally, n = 0

theorem u64ToU256_eq (x : UInt64) : u64ToU256 x = Word.ofFr ((x.toNat : Nat) : Fr) := by
  have small : x.toNat < scalarModulus := lt_trans x.toNat_lt (by decide)
  rw [u64ToU256, Word.ofFr, ZMod.val_natCast, Nat.mod_eq_of_lt small]

def FinishTally.padded (f : FinishTally) : Fin 11 → Fr := fun k => (((f.tally[k.val]?).getD 0).toNat : Nat)

theorem FinishTally.padded_val (f : FinishTally) (k : Fin 11) :
    (f.padded k).val = ((f.tally[k.val]?).getD 0).toNat := by
  have small : ((f.tally[k.val]?).getD 0).toNat < scalarModulus := lt_trans (UInt64.toNat_lt _) (by decide)
  rw [padded, ZMod.val_natCast, Nat.mod_eq_of_lt small]

theorem FinishTally.preimage_eq (f : FinishTally) (fits : f.tally.length ≤ 11) :
    f.preimage (11 - f.tally.length) =
      (((f.tallySalt.toNat : Nat) : Fr) :: List.ofFn f.padded).map Word.ofFr := by
  rw [preimage, u64ToU256_eq, List.map_cons, List.cons_append, List.map_ofFn]
  congr 1
  apply List.ext_getElem
  · simp only [List.length_append, List.length_map, List.length_replicate, List.length_ofFn]
    omega
  · intro k left right
    rw [List.getElem_ofFn, Function.comp_apply, padded]
    by_cases inside : k < f.tally.length
    · rw [List.getElem_append_left (by simpa using inside), List.getElem_map, u64ToU256_eq,
        List.getElem?_eq_getElem inside, Option.getD_some]
    · rw [List.getElem_append_right (by simpa using inside), List.getElem_replicate,
        List.getElem?_eq_none (show f.tally.length ≤ k by omega), Option.getD_none]
      exact Word.ofFr_zero.symm

theorem ReferenceTally.nil {tally : List UInt64} : ReferenceTally G [] tally ↔ ∀ n ∈ tally, n = 0 := by
  have zeros (k : Nat) : (reference H (fun nu => nu) []).count (k + 1 : Nat) = 0 := by
    simp [reference, Book.count]
  constructor
  · rintro ⟨ballots, opened, counts⟩ n member
    cases opened
    have counted := List.mem_map_of_mem (f := UInt64.toNat) member
    rw [counts] at counted
    obtain ⟨k, _, isZero⟩ := List.mem_map.1 counted
    rw [zeros] at isZero
    exact UInt64.toNat_inj.1 isZero.symm
  · intro zero
    refine ⟨[], .nil, ?_⟩
    apply List.ext_getElem (by simp)
    intro k left right
    rw [List.getElem_map, List.getElem_map, zeros, zero _ (List.getElem_mem _)]
    rfl

theorem opens_accepted {ms : List Message} {messages : List EncryptedMessage} {ballots : List Ballot}
    (encoded : List.Forall₂ Encodes ms messages) (opened : List.Forall₂ G.Opens ms ballots) :
    List.Forall₂ (EncryptedMessage.Opens G) messages ballots := by
  induction encoded generalizing ballots with
  | nil =>
      cases opened
      exact .nil
  | cons first _ ih =>
      cases opened with
      | cons first' rest' => exact .cons ⟨_, first, first'⟩ (ih rest')

theorem reference_of_batches {past : List Applied} {l l' : Ledger} {now : UInt64} {f : FinishTally}
    {tally : TallyAccount} {poll : Poll} (finished : Finished H l now f tally poll l')
    (counts : List.Forall₂ Encodes
      ((batchesSince env extract past f.tallyPollId f.tallyOwner).flatMap Mootvote.Tally.messages)
      (accepted past f.pollId))
    (batched : Batched G env extract past l.records)
    (started : batchesSince env extract past f.tallyPollId f.tallyOwner ≠ [])
    (keys : LeafPerNullifier (batchesSince env extract past f.tallyPollId f.tallyOwner)) :
    ReferenceTally G (accepted past f.pollId) f.tally := by
  obtain ⟨tallyHash, applied⟩ := batched _ _ _ finished.found
  generalize batchesSince env extract past f.tallyPollId f.tallyOwner = ws at counts started keys applied
  obtain ⟨rfl, _⟩ | ⟨s, s', fresh, holds, run⟩ := fresh_run applied
  · exact absurd rfl started
  · have fits : f.tally.length ≤ 11 := finished.choices ▸ finished.fits
    have opened : H.hash (((f.tallySalt.toNat : Nat) : Fr) :: List.ofFn f.padded) = some s'.tallyHash := by
      have hashed := finished.opened
      rw [← finished.choices, show maxChoices = 11 from rfl, f.preimage_eq fits, wordHash_ofFr,
        ← holds.tallyHash] at hashed
      obtain ⟨x, isX, same⟩ := Option.map_eq_some_iff.1 hashed
      rwa [Word.ofFr_injective same] at isX
    refine ⟨ws.flatMap Mootvote.Tally.ballots, opens_accepted counts (Mootvote.Tally.opens_run run), ?_⟩
    -- Leaves and nullifiers correspond among the ballots, so both keyings count the same.
    let nus (nu : Fr) : Prop := ∃ b ∈ ws.flatMap Mootvote.Tally.ballots, b.nu = nu
    have apart : ∀ nu nu', nus nu → nus nu' → reducedNu 64 nu = reducedNu 64 nu' → nu = nu' := by
      rintro _ _ ⟨b, member, rfl⟩ ⟨b', member', rfl⟩ same
      exact keys.apart b member b' member' same
    have rekeyed := reference_rekeyed (H := H) nus (reducedNu 64) (fun nu => nu)
      (fun nu nu' seen seen' => ⟨apart nu nu' seen seen', congrArg _⟩) (fun b member => ⟨b, member, rfl⟩)
    apply List.ext_getElem (by simp)
    intro k left right
    have small : k < 11 := lt_of_lt_of_le (by simpa using left) fits
    have counted := tally_run_reference (by decide)
      (by decide) fresh run started keys.intended opened ⟨k, small⟩
    rw [rekeyed.count apart, f.padded_val, List.getElem?_eq_getElem (by simpa using left),
      Option.getD_some] at counted
    rw [List.getElem_map, List.getElem_map, List.getElem_range]
    exact counted

theorem EncryptedMessage.Opens.rightUnique (authentic : G.Authenticated) :
    Relator.RightUnique fun (p : EncryptedMessage) b => p.Opens G b := by
  rintro p b b' ⟨m, encodes, opens⟩ ⟨m', encodes', opens'⟩
  rw [← Encodes.leftUnique encodes encodes'] at opens'
  exact authentic m b b' opens opens'

theorem ReferenceTally.unique (authentic : G.Authenticated) {messages : List EncryptedMessage}
    {tally tally' : List UInt64}
    (left : ReferenceTally G messages tally) (right : ReferenceTally G messages tally')
    (choices : tally.length = tally'.length) : tally = tally' := by
  obtain ⟨ballots, opened, counts⟩ := left
  obtain ⟨ballots', opened', counts'⟩ := right
  have same : ballots = ballots' := (EncryptedMessage.Opens.rightUnique authentic).forall₂ opened opened'
  rw [same, choices, ← counts'] at counts
  exact List.map_injective_iff.2 (fun _ _ => UInt64.toNat_inj.1) counts

theorem reference_iff_counted {past : List Applied} {l l' : Ledger} {now : UInt64} {f : FinishTally}
    {tally : TallyAccount} {poll : Poll} (batched : Batched G env extract past l.records)
    (finished : Finished H l now f tally poll l')
    (counts : List.Forall₂ Encodes
      ((batchesSince env extract past f.tallyPollId f.tallyOwner).flatMap Mootvote.Tally.messages)
      (accepted past f.pollId))
    (keys : LeafPerNullifier (batchesSince env extract past f.tallyPollId f.tallyOwner)) :
    ReferenceTally G (accepted past f.pollId) f.tally ↔ ProvedOrZero env extract past f := by
  by_cases started : batchesSince env extract past f.tallyPollId f.tallyOwner = []
  · have none : accepted past f.pollId = [] := by
      rw [started, List.flatMap_nil] at counts
      exact List.forall₂_nil_left_iff.1 counts
    rw [none, ReferenceTally.nil, ProvedOrZero, started]
    simp
  · exact ⟨fun _ => .inl started, fun _ => reference_of_batches finished counts batched started keys⟩

/-- The recorded vector is the reference tally exactly when a proof made the commitment or nothing is claimed. -/
theorem recorded_iff (authentic : G.Authenticated) (sound : Sound G env extract) {clock : UInt64}
    {lamports : Address → Nat} {past : List Applied} {l l' : Ledger} {e : Applied} {f : FinishTally}
    (run : Steps (Step H env) (genesis clock lamports) past l) (step : Step H env l e l')
    (finishes : e.tx.call.instruction = some (.finishTally f))
    (keys : LeafPerNullifier (batchesSince env extract past f.tallyPollId f.tallyOwner)) :
    ∃ poll, l'.polls f.pollId = some poll ∧
      (ReferenceTally G (accepted past f.pollId) poll.tally ↔ ProvedOrZero env extract past f) ∧
      (accepted past f.pollId = [] → ((∀ n ∈ poll.tally, n = 0) ↔ ProvedOrZero env extract past f)) ∧
      ∀ later l₁ e' f' l₂, Steps (Step H env) l' later l₁ → Step H env l₁ e' l₂ →
        e'.tx.call.instruction = some (.finishTally f') → f'.pollId = f.pollId → Ticking
        (e :: (later ++ [e'])) →
        LeafPerNullifier (batchesSince env extract (past ++ e :: later) f'.tallyPollId f'.tallyOwner) →
        ProvedOrZero env extract past f → ProvedOrZero env extract (past ++ e :: later) f' →
        ∃ poll', l₂.polls f.pollId = some poll' ∧ poll'.tally = poll.tally := by
  obtain ⟨tally, poll, finished⟩ := step.finished finishes
  have logged := Logged.of_run run
  have batched := Batched.of_run sound run
  have reference := reference_iff_counted batched finished (finish_counts logged batched step finishes) keys
  refine ⟨_, finished.recorded, reference, fun none => ?_, ?_⟩
  · rw [← reference, none, ReferenceTally.nil]
  · intro later l₁ e' f' l₂ middle step' finishes' same ticking keys' counted counted'
    have closes : e.tx.closes f.pollId := by rw [Tx.closes, finishes]
    have run' : Steps (Step H env) (genesis clock lamports) (past ++ e :: later) l₁ :=
      Steps.append_iff.2 ⟨l, run, .cons step middle⟩
    have ticks : Ticking (e :: later) := by
      rw [← List.cons_append] at ticking
      exact ticking.sublist (List.sublist_append_left _ _)
    -- The poll accepts nothing between the two calls, so both compare with one reference tally.
    obtain ⟨silent, _⟩ := no_vote_after_close step closes middle ticks fun withdraws => by
      rw [Tx.withdraws, finishes] at withdraws
      exact withdraws.elim
    have sameMessages : accepted (past ++ e :: later) f'.pollId = accepted past f.pollId := by
      have none : e.tx.accepted f.pollId = [] := by rw [Tx.accepted, finishes]; rfl
      rw [same, accepted, List.flatMap_append, List.flatMap_cons, none, List.nil_append]
      change _ ++ accepted later f.pollId = _
      rw [silent, List.append_nil]
      rfl
    obtain ⟨tally', poll', finished'⟩ := step'.finished finishes'
    have logged' := Logged.of_run run'
    have batched' := Batched.of_run sound run'
    have reference' :=
      reference_iff_counted batched' finished' (finish_counts logged' batched' step' finishes') keys'
    rw [sameMessages] at reference'
    have choices : f.tally.length = f'.tally.length := by
      obtain ⟨poll₁, found₁, terms⟩ := terms_run middle finished.recorded
      rw [finished.choices, finished'.choices]
      rw [← same, finished'.foundPoll, Option.some.injEq] at found₁
      rw [found₁, Poll.nChoices_of_terms terms]
    refine ⟨_, same ▸ finished'.recorded, ?_⟩
    exact ((reference.2 counted).unique authentic (reference'.2 counted') choices).symm

end recorded

namespace OneVoter

theorem leafPerNullifier (es : List Applied) : LeafPerNullifier (batchesSince env extract es 7 payer) := by
  have honest : ∀ w ∈ batchesSince env extract es 7 payer, w = DoubleCount.batch false := by
    intro w member
    obtain ⟨_, _, same⟩ := batchesSince_extracted member
    exact same.symm
  have voter : ∀ b ∈ (batchesSince env extract es 7 payer).flatMap Mootvote.Tally.ballots, b.nu = 5 := by
    intro b member
    obtain ⟨w, inside, ballot⟩ := List.mem_flatMap.1 member
    rw [honest w inside, show Mootvote.Tally.ballots (DoubleCount.batch false) =
      [DoubleCount.ballot] by decide +kernel,
      List.mem_singleton] at ballot
    rw [ballot]
    rfl
  refine ⟨fun w member => ?_, fun b member b' member' _ => (voter b member).trans (voter b' member').symm⟩
  rw [honest w member]
  exact DoubleCount.honest_intended _ (List.mem_singleton_self _)

theorem recorded_iff_counted : ∃ (past : List Applied) (l' : Ledger), accepted past 7 = [message] ∧
    ∃ poll, l'.polls 7 = some poll ∧
    (ReferenceTally DoubleCount.gadgets (accepted past 7) poll.tally ↔
      ProvedOrZero env extract past finishTally) := by
  obtain ⟨past, l, e, l', _, _, run, step, _, front, isFinish, _⟩ := runs_split counted
  have finishes : e.tx.call.instruction = some (.finishTally finishTally) := by rw [isFinish]; rfl
  obtain ⟨poll, found, reference, _⟩ := recorded_iff DoubleCount.authenticated sound run step finishes
    (leafPerNullifier past)
  refine ⟨past, l', ?_, poll, found, reference⟩
  rw [accepted_eq, front]
  rfl

/-- Nobody voted and no proof was made: the caller's commitment to one vote is opened and recorded. -/
theorem recorded_without_proof : ∃ past l e l', ∃ poll : Poll,
    DoubleCount.gadgets.Authenticated ∧ Sound DoubleCount.gadgets env extract ∧
      Steps (Step DoubleCount.hash env) (genesis 0 lamports) past l ∧ Step DoubleCount.hash env l e l' ∧
      e.tx.call.instruction = some (.finishTally finishTally) ∧
      LeafPerNullifier (batchesSince env extract past 7 payer) ∧ accepted past 7 = [] ∧
      l'.polls 7 = some poll ∧ poll.tally = [1] ∧ ¬ReferenceTally DoubleCount.gadgets
      (accepted past 7) poll.tally := by
  have recorded : tallyOf (outcome (setup ++ [create 111] ++ [finish])) = some [1] := by decide +kernel
  obtain ⟨past, l, e, l', later, l₂, run, step, after, front, isFinish, back, tally⟩ := runs_split recorded
  rw [List.map_eq_nil_iff] at back
  subst back
  cases Steps.nil_iff.1 after
  obtain ⟨poll, found, isOne⟩ := Option.map_eq_some_iff.1 tally
  have none : accepted past 7 = [] := by
    rw [accepted_eq, front]
    rfl
  refine ⟨past, l, e, l', poll, DoubleCount.authenticated, sound, run, step, by rw [isFinish]; rfl,
    leafPerNullifier past, none, found, isOne, ?_⟩
  rw [none, isOne, ReferenceTally.nil]
  simp

end OneVoter

end Mootvote.Program
