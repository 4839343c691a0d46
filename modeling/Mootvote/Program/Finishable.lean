import Mootvote.Circom.SmtTemplates
import Mootvote.Circom.TallyComplete
import Mootvote.Program.Recorded

set_option autoImplicit false

/-!
# Which polls can be finished

`create_poll` accepts any positive number of choices, and `finish_tally` subtracts it from the
eleven choices of the tally circuit.
-/

namespace Mootvote.Program

open Shared

section finishing

variable {H : IdealHash Fr} {env : Env} {G : Gadgets H}

/-- `unix_timestamp` is an `i64`, and the programs read it as a `u64`. -/
def ClockTime (now : UInt64) : Prop := now.toNat < 2 ^ 63

def Provable (G : Gadgets H) (env : Env) : Prop :=
  ∀ w : Batch, w.Constraints G → ∃ compressed proof, env.decompress compressed = some proof ∧
    env.verifyTally proof (w.publicSignals.map Word.ofFr) = true

structure Tallying where
  create : CreateTally
  batches : List TallyBatch
  finish : FinishTally

def sent (now : UInt64) (payer : Word) (i : Instruction) :
    Tx := { now, signers := [payer], call := .mootvote i }

def Tallying.txs (calls : Tallying) (now : UInt64) (payer : Word) : List Tx :=
  sent now payer (.createTally calls.create) ::
    (calls.batches.map (fun b => sent now payer (.tallyBatch b))
      ++ [sent now payer (.finishTally calls.finish)])

/-- Calls of one payer record how many voters each choice currently has. -/
def Finishes (H : IdealHash Fr) (env : Env) (l : Ledger) (id : UInt64) (payer : Word)
    (ballots : List Ballot) (now : UInt64) :
    Prop :=
  ∃ (calls : Tallying) (l' : Ledger) (poll : Poll), calls.finish.pollId = id ∧
    replay H env l (calls.txs now payer) = .ok l' ∧ l'.polls id = some poll ∧
    poll.tally.map UInt64.toNat =
      (List.range poll.nChoices.toNat).map fun k => (reference H (fun nu => nu) ballots).count (k + 1 : Nat)

def TallyAccount.ofState (s : TallyState) : TallyAccount :=
  { tallyHash := Word.ofFr s.tallyHash, cumulativeMsgHash := Word.ofFr s.cumulativeMsgHash,
    root := Word.ofFr s.root }

section calls

variable {l l' : Ledger} {id now : UInt64} {payer : Word} {s s' : TallyState}

theorem Ledger.setTally_tallies (tally : Option TallyAccount) (owner : Address) :
    (l.setTally id owner tally).tallies id owner = tally := by
  simp [Ledger.setTally]

theorem createTally_ok (H : IdealHash Fr) (id now : UInt64) (tallyHash : Fr)
    (funded : env.minimumBalance tallySpace ≤ l.lamports (.key payer)) :
    ∃ l', (sent now payer (.createTally
        { payer := .key payer, pollId := id, initialTallyHash := Word.ofFr tallyHash })).execute H
          env l = .ok l' ∧
      l'.polls = l.polls ∧
      l'.tallies id (.key payer) = some (TallyAccount.ofState
        { root := 0, cumulativeMsgHash := 0, tallyHash }) := by
  let start : Ledger := { l with clock := now }
  have created : ∃ l₁ : Ledger, createTally env [.key payer] start
      { payer := .key payer, pollId := id, initialTallyHash := Word.ofFr tallyHash } =
        .ok (l₁.setTally id (.key payer) (some (TallyAccount.ofState
          { root := 0, cumulativeMsgHash := 0, tallyHash }))) ∧ l₁.polls = l.polls := by
    simp only [createTally, bind_ok_iff, require_ok_iff, pure_ok_iff, TallyAccount.ofState, Word.ofFr_zero]
    cases start.tallies id (.key payer) with
    | none =>
        have enough : ¬start.lamports (.key payer) <
          env.minimumBalance tallySpace - start.lamports (.tally id (.key payer)) := by
          have same : start.lamports (.key payer) = l.lamports (.key payer) := rfl
          omega
        exact ⟨_, ⟨(), by simp, _, if_neg enough, rfl⟩, rfl⟩
    | some _ => exact ⟨start, ⟨(), by simp, start, rfl, rfl⟩, rfl⟩
  obtain ⟨l₁, isCreated, polls⟩ := created
  exact ⟨l₁.setTally id (.key payer) (some (TallyAccount.ofState
    { root := 0, cumulativeMsgHash := 0, tallyHash })), isCreated, polls, Ledger.setTally_tallies _ _⟩

theorem tallyBatch_ok (now : UInt64) {w : Batch} (provable : Provable G env)
    (step : Mootvote.Tally.Step G s w s')
    (found : l.tallies id (.key payer) = some (TallyAccount.ofState s)) :
    ∃ b l', (sent now payer (.tallyBatch b)).execute H env l = .ok l' ∧ l'.polls = l.polls ∧
      l'.tallies id (.key payer) = some (TallyAccount.ofState s') := by
  obtain ⟨constraints, rfl, rfl⟩ := step
  obtain ⟨compressed, proof, decompressed, verified⟩ := provable w constraints
  let b : TallyBatch :=
    { tallyPollId := id, tallyOwner := .key payer, proof := compressed, rootNew := Word.ofFr w.rootNew,
      cumulativeMsgHashNew := Word.ofFr w.cumulativeMsgHashNew, tallyHashNew := Word.ofFr w.tallyHashNew }
  refine ⟨b, ({ l with clock := now } : Ledger).setTally id (.key payer) (some b.tallyNew), ?_, rfl,
    Ledger.setTally_tallies _ _⟩
  show tallyBatch env { l with clock := now } b = _
  simp only [tallyBatch, bind_ok_iff, require_ok_iff, load_ok_iff, decompress_ok_iff, pure_ok_iff]
  exact ⟨TallyAccount.ofState w.stateOld, found, proof, decompressed, (), verified, rfl⟩

theorem batches_ok (now : UInt64) {ws : List Batch} (provable : Provable G env)
    (run : Steps (Mootvote.Tally.Step G) s ws s')
    (found : l.tallies id (.key payer) = some (TallyAccount.ofState s)) :
    ∃ (bs : List TallyBatch) (l' : Ledger), replay H env l
    (bs.map fun b => sent now payer (.tallyBatch b)) = .ok l' ∧
      l'.polls = l.polls ∧ l'.tallies id (.key payer) = some (TallyAccount.ofState s') := by
  induction run generalizing l with
  | nil s => exact ⟨[], l, rfl, rfl, found⟩
  | cons step _ ih =>
      obtain ⟨b, mid, executed, polls, tally⟩ := tallyBatch_ok now provable step found
      obtain ⟨bs, l', replayed, polls', tally'⟩ := ih tally
      refine ⟨b :: bs, l', ?_, polls'.trans polls, tally'⟩
      simp only [List.map_cons, replay, bind_ok_iff]
      exact ⟨mid, executed, replayed⟩

theorem finishTally_ok {f : FinishTally} {tally : TallyAccount} {poll : Poll}
    (found : l.tallies f.tallyPollId f.tallyOwner = some tally) (foundPoll : l.polls f.pollId = some poll)
    (ended : poll.votingEndTime < now) (choices : f.tally.length = poll.nChoices.toNat)
    (fits : poll.nChoices.toNat ≤ maxChoices) (same : tally.cumulativeMsgHash = poll.cumulativeMsgHash)
    (opened : (wordHash H).hash (f.preimage (maxChoices - poll.nChoices.toNat)) = some tally.tallyHash)
    (apart : f.payer ≠ .tally f.tallyPollId f.tallyOwner) :
    ∃ l', (sent now payer (.finishTally f)).execute H env l = .ok l' ∧
      l'.polls f.pollId = some { poll with tally := f.tally } := by
  refine ⟨_, finishTally_ok_iff.2 ⟨tally, poll, found, foundPoll, ended, choices, same, fits, opened, apart, rfl⟩, ?_⟩
  exact Function.update_self ..

/-- The only panic of `finish_tally` is the subtraction from the circuit's choices. -/
theorem finishTally_panics {f : FinishTally} (panics : finishTally H l f = .error .arithmeticOverflow) :
    ∃ poll, l.polls f.pollId = some poll ∧ maxChoices < poll.nChoices.toNat := by
  simp only [finishTally, Ledger.closeTallyAccount, bind_error_iff, require_error_iff, load_error_iff,
    poseidon_error_iff,
    checkedSub_error_iff, load_ok_iff, reduceCtorEq, and_false, false_or, exists_false, or_false,
      and_true, pure, Except.pure] at panics
  obtain ⟨_, _, poll, found, _, _, _, _, _, _, exceeds⟩ := panics
  exact ⟨poll, found, exceeds⟩

end calls

section finishable

variable {clock id : UInt64} {lamports : Address → Nat} {past : List Applied} {l : Ledger}
  {poll : Poll} {sk : Fr}
  {messages : List Message} {ballots : List Ballot} {salt : Nat → UInt64} {payer : Word}

def countsOf (H : IdealHash Fr) (nChoices : Nat) (ballots : List Ballot) : List UInt64 :=
  (List.range nChoices).map fun k => UInt64.ofNat ((reference H (fun nu => nu) ballots).count (k + 1 : Nat))

theorem countsOf_toNat (few : (ballots.map Ballot.nu).dedup.length ≤ 2 ^ 63) (nChoices : Nat) :
    (countsOf H nChoices ballots).map UInt64.toNat =
      (List.range nChoices).map fun k => (reference H (fun nu => nu) ballots).count (k + 1 : Nat) := by
  rw [countsOf, List.map_map]
  refine List.map_congr_left fun k _ => ?_
  have bound := count_le_nullifiers (H := H) ballots (k + 1 : Nat)
  rw [Function.comp_apply, UInt64.toNat_ofNat_of_lt']
  exact lt_of_le_of_lt (bound.trans few) (by decide)

theorem padded_countsOf {f : FinishTally} {nChoices : Nat} (opens : f.tally = countsOf H nChoices ballots)
    (few : (ballots.map Ballot.nu).dedup.length ≤ 2 ^ 63) (inRange : ∀ b ∈ ballots, b.choice.val ≤ nChoices) :
    f.padded = (reference H (leafIndex 64 (ballots.map Ballot.nu)) ballots).counts 11 := by
  funext k
  rw [FinishTally.padded, Book.counts, count_leafIndex few, opens]
  by_cases inside : k.val < nChoices
  · have bound := (count_le_nullifiers (H := H) ballots (k.val + 1 : Nat)).trans few
    rw [countsOf, List.getElem?_map, List.getElem?_range inside, Option.map_some, Option.getD_some,
      UInt64.toNat_ofNat_of_lt' (lt_of_le_of_lt bound (by decide))]
  · -- No ballot is for a choice above the poll's.
    have none : ∀ b ∈ ballots, b.choice ≠ (k.val + 1 : Nat) := by
      intro b member same
      have low := inRange b member
      rw [same, ZMod.val_natCast, Nat.mod_eq_of_lt
        (lt_trans (show k.val + 1 < 12 by omega) (by decide))] at low
      omega
    rw [count_eq_zero none, countsOf, List.getElem?_map, List.getElem?_eq_none (by simpa using inside)]
    rfl

theorem countsOf_length (nChoices : Nat) : (countsOf H nChoices ballots).length = nChoices := by
  rw [countsOf, List.length_map, List.length_range]

theorem finishes_of_fits {now : UInt64} (complete : G.Complete) (provable : Provable G env)
    (run : Steps (Step H env) (genesis clock lamports) past l) (found : l.polls id = some poll)
    (encoded : List.Forall₂ Encodes messages (accepted past id))
    (opens : List.Forall₂ (G.Decrypts sk) messages ballots)
    (inRange : ∀ b ∈ ballots, b.choice.val ≤ poll.nChoices.toNat)
    (few : (ballots.map Ballot.nu).dedup.length ≤ 2 ^ 63)
    (hashable : Hashable H 11 (leafIndex 64 (ballots.map Ballot.nu)) (fun n => ((salt n).toNat : Nat))
      messages ballots)
    (funded : env.minimumBalance tallySpace ≤ l.lamports (.key payer)) (fits : poll.nChoices.toNat ≤ 11)
    (ended : poll.votingEndTime < now) : Finishes H env l id payer ballots now := by
  -- What the poll accepted is what its digest absorbed.
  obtain ⟨ms, digest, encoded', absorbs, isDigest⟩ := (Logged.of_run run).absorbs id
  rw [Encodes.leftUnique.forall₂ encoded' encoded] at absorbs
  rw [Records.digest_of_found found] at isDigest
  -- The circuit counts it, one batch for each message.
  obtain ⟨tallyHash, hashed⟩ := hashable.tallies [] List.nil_prefix
  have low : ∀ b ∈ ballots, (leafIndex 64 (ballots.map Ballot.nu) b.nu).val < 2 ^ (64 - 1) := fun b member =>
    (leafIndex_low few (List.mem_map_of_mem member)).2
  obtain ⟨ws, s, t, counted, tallied, rfl⟩ :=
    (Tallied.initial hashed).run 6 complete (by decide) (by decide) (by decide) (by decide) (by decide) hashable
      low opens rfl rfl rfl absorbs
  -- The program takes the batches, and then the vector that the last of them commits to.
  obtain ⟨l₁, created, polls₁, tally₁⟩ := createTally_ok H id now tallyHash funded
  obtain ⟨bs, l₂, replayed, polls₂, tally₂⟩ := batches_ok now provable counted tally₁
  let f : FinishTally :=
    { payer := .key payer, tallyPollId := id, tallyOwner := .key payer, pollId := id
      tally := countsOf H poll.nChoices.toNat ballots, tallySalt := salt ballots.length }
  have length : f.tally.length = poll.nChoices.toNat := countsOf_length _
  have opened : (wordHash H).hash (f.preimage (maxChoices - poll.nChoices.toNat)) =
    some (TallyAccount.ofState s).tallyHash := by
    rw [← length, show maxChoices = 11 from rfl, f.preimage_eq (by omega), wordHash_ofFr,
      padded_countsOf rfl few inRange, tallied.hashed]
    rfl
  have foundPoll : l₂.polls id = some poll := by rw [polls₂, polls₁, found]
  obtain ⟨l₃, finished, recorded⟩ : ∃ l₃, (sent now payer (.finishTally f)).execute H env l₂ = .ok l₃ ∧
      l₃.polls id = some { poll with tally := f.tally } :=
    finishTally_ok tally₂ foundPoll ended length fits isDigest opened (by simp [f])
  let create : CreateTally := { payer := .key payer, pollId := id, initialTallyHash := Word.ofFr tallyHash }
  refine ⟨{ create, batches := bs, finish := f }, l₃, _, rfl, ?_, recorded, ?_⟩
  · rw [Tallying.txs]
    simp only [replay, bind_ok_iff]
    refine ⟨l₁, created, ?_⟩
    rw [replay_append]
    simp only [replay, bind_ok_iff]
    exact ⟨l₂, replayed, l₃, finished, rfl⟩
  · exact countsOf_toNat few _

theorem Finishes.ended {now : UInt64} (finishes : Finishes H env l id payer ballots now)
    (found : l.polls id = some poll) :
    poll.nChoices.toNat ≤ 11 ∧ poll.votingEndTime < now := by
  obtain ⟨calls, l', _, same, replayed, _⟩ := finishes
  rw [Tallying.txs, ← List.cons_append] at replayed
  obtain ⟨before, l₁, e, l₂, _, run, step, _, _, isFinish, _⟩ := replay_split replayed
  obtain ⟨tally, poll', finished⟩ := step.finished
    (show e.tx.call.instruction = some (.finishTally calls.finish) by rw [isFinish]; rfl)
  obtain ⟨poll₁, found₁, terms⟩ := terms_run run found
  rw [← same, finished.foundPoll, Option.some.injEq] at found₁
  subst found₁
  have fits := finished.fits
  have ended := finished.ended
  rw [Poll.nChoices_of_terms terms] at fits
  rw [Poll.votingEndTime_of_terms terms, isFinish] at ended
  exact ⟨fits, ended⟩

/-- A poll can be finished from some time on, and never panics, exactly if its choices fit the
circuit and the clock gets past its end. -/
theorem finishable_iff (complete : G.Complete) (provable : Provable G env)
    (run : Steps (Step H env) (genesis clock lamports) past l) (found : l.polls id = some poll)
    (encoded : List.Forall₂ Encodes messages (accepted past id))
    (opens : List.Forall₂ (G.Decrypts sk) messages ballots)
    (inRange : ∀ b ∈ ballots, b.choice.val ≤ poll.nChoices.toNat)
    (few : (ballots.map Ballot.nu).dedup.length ≤ 2 ^ 63)
    (hashable : Hashable H 11 (leafIndex 64 (ballots.map Ballot.nu)) (fun n => ((salt n).toNat : Nat))
      messages ballots)
    (funded : env.minimumBalance tallySpace ≤ l.lamports (.key payer)) :
    ((∃ due, ClockTime due ∧ poll.votingEndTime < due ∧
        ∀ now, ClockTime now → due ≤ now → Finishes H env l id payer ballots now) ∧
      ∀ later l₁ f, Steps (Step H env) l later l₁ → f.pollId = id →
      finishTally H l₁ f ≠ .error .arithmeticOverflow) ↔
    poll.nChoices.toNat ≤ 11 ∧ poll.votingEndTime.toNat < 2 ^ 63 - 1 := by
  constructor
  · rintro ⟨⟨due, isTime, ended, finishes⟩, _⟩
    refine ⟨((finishes due isTime (UInt64.le_refl due)).ended found).1, ?_⟩
    -- The clock reads a time after the end, so the end is not the clock's last one.
    rw [ClockTime] at isTime
    rw [UInt64.lt_iff_toNat_lt] at ended
    omega
  · rintro ⟨fits, early⟩
    have next : (poll.votingEndTime + 1).toNat = poll.votingEndTime.toNat + 1 := by
      rw [UInt64.toNat_add]
      have one : (1 : UInt64).toNat = 1 := rfl
      omega
    refine ⟨⟨poll.votingEndTime + 1, ?_, ?_, fun now _ due => ?_⟩, ?_⟩
    · rw [ClockTime, next]
      omega
    · rw [UInt64.lt_iff_toNat_lt, next]
      exact Nat.lt_succ_self _
    · refine finishes_of_fits complete provable run found encoded opens inRange few hashable funded fits ?_
      rw [UInt64.le_iff_toNat_le, next] at due
      rw [UInt64.lt_iff_toNat_lt]
      omega
    · rintro later l₁ f after rfl panics
      obtain ⟨poll₁, found₁, exceeds⟩ := finishTally_panics panics
      obtain ⟨poll₂, found₂, terms⟩ := terms_run after found
      rw [found₁, Option.some.injEq] at found₂
      rw [found₂, Poll.nChoices_of_terms terms] at exceeds
      exact absurd exceeds (not_lt.2 fits)

end finishable

end finishing

namespace OneLeaf

def hash : IdealHash Fr :=
  .ofTable (DoubleCount.table ++ [([0, 102, 1], 114), ([105, 103], 115)]) (by decide +kernel)
    (by decide +kernel)

def gadgets : Gadgets hash :=
  .circomlib hash (fun _ pk => pk) fun _ _ ciphertext decrypted => ∀ i, decrypted i = ciphertext i.castSucc

open Classical in
noncomputable def env : Env :=
  { OneVoter.env with
    verifyTally := fun _ inputs => decide (∃ w : Batch, w.Constraints gadgets ∧
      w.publicSignals.map Word.ofFr = inputs) }

theorem provable : Provable gadgets env := by
  intro w constraints
  refine ⟨OneVoter.proof, _, rfl, ?_⟩
  simp only [env, decide_eq_true_eq]
  exact ⟨w, constraints, rfl⟩

def setup (nChoices : UInt8) : List Tx :=
  OneVoter.setup.take 2 ++
    [OneVoter.sign 0 (.mootvote (.createPoll
      { payer := OneVoter.payer, id := 7, nChoices, descriptionUrl := "", censusUrl := "", tallierKey := ⟨0, 0⟩,
        censusRoot := 0
        votingStartTime := 1, votingEndTime := 10, fee := 0, feeDestination := OneVoter.payer,
          nVoters := 1 })),
      OneVoter.cast 5]

def message : Message := DoubleCount.first.message

def salt (n : Nat) : UInt64 := if n = 0 then 8 else 9

theorem reference_ballot : reference hash (leafIndex 64 [5]) [DoubleCount.ballot] =
    Function.update (fun _ => none) (0 : Fin (2 ^ 64)) (some (1, 7)) := by
  have onRecord : Book.revotingKey hash (fun _ : Fin (2 ^ 64) => none)
    (leafIndex 64 [5] DoubleCount.ballot.nu) =
      some DoubleCount.ballot.revotingKeyOld := by decide +kernel
  rw [reference, List.foldl_cons, List.foldl_nil, Book.apply, if_pos onRecord]
  rfl

theorem counts_nil : Book.counts 11 (reference hash (leafIndex 64 [5]) []) = DoubleCount.counts 0 := by
  funext t
  simp [Book.counts, Book.count, reference, DoubleCount.counts]

theorem counts_ballot : Book.counts 11 (reference hash (leafIndex 64 [5]) [DoubleCount.ballot]) =
    DoubleCount.counts 1 := by
  have empty (t : Fin 11) : Book.counts 11 (fun _ : Fin (2 ^ 64) => none) t = 0 := by
    simp [Book.counts, Book.count]
  funext t
  rw [reference_ballot, Book.counts_update (by decide), empty]
  clear empty
  revert t
  decide +kernel

theorem hashable : Hashable hash 11 (leafIndex 64 [5]) (fun n => ((salt n).toNat : Nat)) [message]
    [DoubleCount.ballot] where
  noVote := ⟨100, 101, by decide +kernel, by decide +kernel⟩
  leaves := by
    intro b member
    cases List.mem_singleton.1 member
    exact ⟨102, by decide +kernel⟩
  roots := by
    intro past t isPrefix shaped tracks
    rcases List.prefix_cons_iff.1 isPrefix with rfl | ⟨rest, rfl, none⟩
    · rw [tracks.unique Tracks.fresh shaped (SparseMerkle.SparseTree.shaped_empty 64)]
      exact ⟨0, rfl⟩
    · rw [List.prefix_nil] at none
      subst none
      have held : Tracks hash (reference hash (leafIndex 64 [5]) [DoubleCount.ballot]) (.leaf 0 102) := by
        rw [reference_ballot]
        refine Tracks.fresh.store (by decide) (show hash.hash [1, 7] = some 102 by decide +kernel)
          (fun other => ?_) ?_
        · simp [SparseMerkle.SparseTree.lookup, SparseMerkle.SparseTree.slot, eq_comm]
        · simp [SparseMerkle.SparseTree.leaves]
      rw [tracks.unique held shaped ⟨trivial, trivial, Nat.zero_le _⟩]
      exact ⟨114, by decide +kernel⟩
  tallies := by
    intro past isPrefix
    rcases List.prefix_cons_iff.1 isPrefix with rfl | ⟨rest, rfl, none⟩
    · rw [counts_nil]
      exact ⟨110, by decide +kernel⟩
    · rw [List.prefix_nil] at none
      subst none
      rw [counts_ballot]
      exact ⟨111, by decide +kernel⟩
  idle := by
    intro past m digest msgHash isPrefix absorbs hashed
    rcases List.prefix_cons_iff.1 isPrefix with none | ⟨rest, split, none⟩
    · simp at none
    · rw [List.prefix_nil] at none
      subst none
      obtain ⟨rfl, same⟩ := List.append_inj' (show past ++ [m] = [] ++ [message] from split) rfl
      cases same
      obtain ⟨_, next, hashed', chained, hashes, none, digested⟩ := absorbs.uncons
      cases none
      cases digested
      rw [show hash.hash message.preimage = some 103 by decide +kernel, Option.some.injEq] at hashed hashed'
      subst hashed hashed'
      rw [show hash.hash [0, 103] = some 105 by decide +kernel, Option.some.injEq] at chained
      subst chained
      exact ⟨115, by decide +kernel⟩

theorem encodes : Encodes message OneVoter.message where
  x := by decide +kernel
  y := by decide +kernel
  nonce := by decide +kernel
  ciphertext := by decide +kernel

theorem decrypts : gadgets.Decrypts 6 message DoubleCount.ballot := by
  refine ⟨![5, 1, 100, 7, 0, 0], ?_, rfl⟩
  change ∀ i : Fin pad, _ = _
  decide +kernel

def created (result : Outcome Ledger) : Option (UInt8 × UInt64) :=
  match result with
  | .error _ => none
  | .ok l => (l.polls 7).map fun poll => (poll.nChoices, poll.votingEndTime)

theorem exists_run {H : IdealHash Fr} {env : Env} {nChoices : UInt8} {txs : List Tx}
    (isCreated : created (replay H env (genesis 0 OneVoter.lamports) (setup nChoices)) = some (nChoices, 10))
    {l₁ : Ledger} (done : replay H env (genesis 0 OneVoter.lamports) (setup nChoices ++ txs) = .ok l₁) :
    ∃ past l later poll, Steps (Step H env) (genesis 0 OneVoter.lamports) past l ∧
    Steps (Step H env) l later l₁ ∧
      l.polls 7 = some poll ∧ poll.nChoices = nChoices ∧ poll.votingEndTime = 10 ∧ accepted past 7 =
      [OneVoter.message] := by
  rw [replay_append, bind_ok_iff] at done
  obtain ⟨l, front, back⟩ := done
  rw [front] at isCreated
  obtain ⟨poll, found, terms⟩ := Option.map_eq_some_iff.1 isCreated
  obtain ⟨past, run, same⟩ := replay_steps front
  obtain ⟨later, after, _⟩ := replay_steps back
  rw [Prod.mk.injEq] at terms
  refine ⟨past, l, later, poll, run, after, found, terms.1, terms.2, ?_⟩
  rw [OneVoter.accepted_eq, same]
  rfl

theorem finishable_iff_one : ∃ past l poll, Steps (Step hash env) (genesis 0 OneVoter.lamports) past l ∧
    l.polls 7 = some poll ∧
    accepted past 7 = [OneVoter.message] ∧
    ∃ due, ClockTime due ∧ poll.votingEndTime < due ∧
      ∀ now, ClockTime now → due ≤ now → Finishes hash env l 7 21 [DoubleCount.ballot] now := by
  have isCreated : created (replay hash env (genesis 0 OneVoter.lamports) (setup 1)) =
    some (1, 10) := by decide +kernel
  cases done : replay hash env (genesis 0 OneVoter.lamports) (setup 1) with
  | error e =>
      rw [done] at isCreated
      cases isCreated
  | ok l₁ =>
      rw [← List.append_nil (setup 1)] at done
      obtain ⟨past, l, _, poll, run, _, found, choices, ends, messages⟩ := exists_run isCreated done
      refine ⟨past, l, poll, run, found, messages, ?_⟩
      have encoded : List.Forall₂ Encodes [message] (accepted past 7) := by
        rw [messages]
        exact .cons encodes .nil
      have finishable := (finishable_iff (Gadgets.circomlib_complete _ _ _) provable run found encoded
        (.cons decrypts .nil)
        (by simp only [List.mem_singleton, forall_eq, choices]; decide +kernel) (by decide +kernel) hashable
        (show env.minimumBalance tallySpace ≤ l.lamports (.key 21) from Nat.zero_le _)).2
          (by rw [choices, ends]; decide)
      exact finishable.1

def finishTwelve : FinishTally :=
  { OneVoter.finishTally with tally := 1 :: List.replicate 11 0 }

/-- A poll of twelve choices is created, voted on and tallied; `finish_tally` panics, and no calls finish it. -/
theorem unfinishable_twelve : ∃ past l later l₁ poll,
    Steps (Step DoubleCount.hash OneVoter.env) (genesis 0 OneVoter.lamports) past l ∧ l.polls 7 = some poll ∧
      poll.nChoices = 12 ∧ accepted past 7 = [OneVoter.message] ∧ List.Forall₂ Encodes [message]
      (accepted past 7) ∧
      DoubleCount.gadgets.Decrypts 6 message DoubleCount.ballot ∧ DoubleCount.ballot.choice.val ≤ 12 ∧
      Steps (Step DoubleCount.hash OneVoter.env) l later l₁ ∧
      finishTally DoubleCount.hash l₁ finishTwelve = .error .arithmeticOverflow ∧
      ∀ payer ballots now, ¬Finishes DoubleCount.hash OneVoter.env l 7 payer ballots now := by
  have isCreated : created (OneVoter.outcome (setup 12)) = some (12, 10) := by decide +kernel
  have panics : (match OneVoter.outcome (setup 12 ++ [OneVoter.create 110, OneVoter.count]) with
      | .error _ => false
      | .ok l => match finishTally DoubleCount.hash l finishTwelve with
        | .error e => decide (e = .arithmeticOverflow)
        | .ok _ => false) = true := by decide +kernel
  cases done : OneVoter.outcome (setup 12 ++ [OneVoter.create 110, OneVoter.count]) with
  | error e =>
      rw [done] at panics
      cases panics
  | ok l₁ =>
      rw [done] at panics
      obtain ⟨past, l, later, poll, run, after, found, choices, _, messages⟩ := exists_run isCreated done
      refine ⟨past, l, later, l₁, poll, run, found, choices, messages, ?_, decrypts, by decide +kernel,
        after, ?_, ?_⟩
      · rw [messages]
        exact .cons encodes .nil
      · cases finished : finishTally DoubleCount.hash l₁ finishTwelve with
        | error e =>
            simp only [finished, decide_eq_true_eq] at panics
            rw [panics]
        | ok _ =>
            simp only [finished] at panics
            cases panics
      · intro payer ballots now finishes
        have fits := (finishes.ended found).1
        rw [choices] at fits
        exact absurd fits (by decide)

end OneLeaf

end Mootvote.Program
