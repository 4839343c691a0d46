import Mootvote.Circom.TallyReference
import Mootvote.Program.Effect

set_option autoImplicit false

/-!
# Accepted messages and counted messages

What a history of transactions accepted for a poll, and what the proofs applied to a Tally account
have counted. The two digests that `finish_tally` compares are hashes of the two lists.
-/

namespace Mootvote.Program

open Shared

def Instruction.accepted (id : UInt64) : Instruction → List EncryptedMessage
  | .vote v => if v.pollId = id then [v.message] else []
  | .voteWithRelayer v => if v.pollId = id then [v.message] else []
  | _ => []

def Tx.accepted (id : UInt64) (tx : Tx) : List EncryptedMessage :=
  match tx.call.instruction with
  | none => []
  | some i => i.accepted id

def accepted (es : List Applied) (id : UInt64) : List EncryptedMessage := es.flatMap fun e => e.tx.accepted id

def voteEvent (id : UInt64) : Event → List VoteEvent
  | .vote e => if e.pollId = id then [e] else []
  | _ => []

def voteEvents (events : List Event) (id : UInt64) : List VoteEvent := events.flatMap (voteEvent id)

theorem accepted_snoc (es : List Applied) (e : Applied) (id : UInt64) :
    accepted (es ++ [e]) id = accepted es id ++ e.tx.accepted id := by
  simp [accepted]

theorem voteEvents_snoc (events : List Event) (event : Event) (id : UInt64) :
    voteEvents (events ++ [event]) id = voteEvents events id ++ voteEvent id event := by
  simp [voteEvents]

/-- The digest on record for a poll; a poll that does not exist has the digest of no messages. -/
def Records.digest (r : Records) (id : UInt64) : Word :=
  match r.polls id with
  | none => 0
  | some poll => poll.cumulativeMsgHash

theorem Records.digest_of_found {r : Records} {id : UInt64} {poll : Poll} (found : r.polls id = some poll) :
    r.digest id = poll.cumulativeMsgHash := by
  rw [digest, found]

theorem Records.digest_of_absent {r : Records} {id : UInt64} (absent : r.polls id = none) :
    r.digest id = 0 := by
  rw [digest, absent]

section history

variable {H : IdealHash Fr} {env : Env}

section accepted

/-- The events log the accepted messages, and their hashes chain up to the digests. -/
structure Logged (H : IdealHash Fr) (es : List Applied) (r : Records) : Prop where
  ids : ∀ id poll, r.polls id = some poll → poll.id = id
  messages : ∀ id, (voteEvents r.events id).map VoteEvent.message = accepted es id
  hashed : ∀ id, ∀ event ∈ voteEvents r.events id,
    (wordHash H).hash event.message.preimage = some event.msgHash
  chained : ∀ id, (wordHash H).chain 0 ((voteEvents r.events id).map VoteEvent.msgHash) = some (r.digest id)

namespace Logged

variable {es : List Applied} {r r' : Records} {e : Applied}

theorem quiet (logged : Logged H es r) (polls : r'.polls = r.polls)
    (events : ∀ id, voteEvents r'.events id = voteEvents r.events id) (none : ∀ id, e.tx.accepted id = []) :
    Logged H (es ++ [e]) r' where
  ids := by rw [polls]; exact logged.ids
  messages id := by rw [events, accepted_snoc, none, List.append_nil, logged.messages]
  hashed id := by rw [events]; exact logged.hashed id
  chained id := by rw [events, logged.chained, Records.digest, Records.digest, polls]

theorem stored (logged : Logged H es r) (poll : Poll)
    (polls : r'.polls = Function.update r.polls poll.id (some poll))
    (digest : r.digest poll.id = poll.cumulativeMsgHash)
    (events : ∀ id, voteEvents r'.events id = voteEvents r.events id) (none : ∀ id, e.tx.accepted id = []) :
    Logged H (es ++ [e]) r' where
  ids id other found := by
    rw [polls, Function.update_apply] at found
    split_ifs at found with same
    · cases found
      exact same.symm
    · exact logged.ids id other found
  messages id := by rw [events, accepted_snoc, none, List.append_nil, logged.messages]
  hashed id := by rw [events]; exact logged.hashed id
  chained id := by
    rw [events, logged.chained]
    by_cases same : id = poll.id
    · subst same
      rw [digest, Records.digest, polls, Function.update_self]
    · rw [Records.digest, Records.digest, polls, Function.update_of_ne same]

theorem voted (logged : Logged H es r) {pollId : UInt64} {message : EncryptedMessage} {expected : Option Word}
    (voted : Voted H r pollId message expected r')
    (sent : ∀ id, e.tx.accepted id = if pollId = id then [message] else []) : Logged H (es ++ [e]) r' := by
  obtain @⟨poll, msgHash, cumulativeMsgHash, found, _, _, hashed, _, chained⟩ := voted
  -- The event names the stored id, the message belongs to the account's.
  have own := logged.ids _ _ found
  subst own
  refine ⟨?_, ?_, ?_, ?_⟩
  · intro id other foundOther
    rw [Records.emit_polls, Records.setPoll_polls, Function.update_apply] at foundOther
    split_ifs at foundOther with same
    · cases foundOther
      exact same.symm
    · exact logged.ids id other foundOther
  · intro id
    rw [Records.emit_events, Records.setPoll_events, voteEvents_snoc, accepted_snoc, List.map_append,
      logged.messages, sent, voteEvent]
    split_ifs <;> rfl
  · intro id event member
    rw [Records.emit_events, Records.setPoll_events, voteEvents_snoc, List.mem_append, voteEvent] at member
    rcases member with old | new
    · exact logged.hashed id event old
    · split_ifs at new
      · rw [List.mem_singleton.1 new]
        exact hashed
      · simp at new
  · intro id
    rw [Records.emit_events, Records.setPoll_events, voteEvents_snoc, List.map_append, voteEvent,
      Records.digest, Records.emit_polls, Records.setPoll_polls, Function.update_apply]
    by_cases same : poll.id = id
    · subst same
      have before := logged.chained poll.id
      rw [Records.digest, found] at before
      rw [if_pos rfl, if_pos rfl, List.map_singleton, IdealHash.chain_snoc, before]
      exact chained
    · rw [if_neg same, if_neg (Ne.symm same), List.map_nil, List.append_nil]
      exact logged.chained id

theorem step {l l' : Ledger} (logged : Logged H es l.records) (step : Step H env l e l') :
    Logged H (es ++ [e]) l'.records := by
  rcases step.outcome with ⟨called, polls, _, events⟩ | ⟨i, signers, r, called, _, polls, _, events, effect⟩
  · have sameEvents : l'.records.events = l.records.events := events
    exact logged.quiet polls (fun _ => by rw [sameEvents]) (by simp [Tx.accepted, called])
  · have before : Logged H es r := by
      refine ⟨polls ▸ logged.ids, events ▸ logged.messages, events ▸ logged.hashed, fun id => ?_⟩
      rw [Records.digest, polls, events]
      exact logged.chained id
    generalize l'.records = r' at effect
    cases effect with
    | vote voted => exact before.voted voted (by simp [Tx.accepted, Instruction.accepted, called])
    | voteWithRelayer _ _ voted =>
      exact before.voted voted
        (by simp [Tx.accepted, Instruction.accepted, called])
    | @createPoll c config _ _ _ absent =>
        exact before.stored (c.poll config) rfl (Records.digest_of_absent absent)
          (fun _ => by simp [voteEvents_snoc, voteEvent, Records.setRelayerState])
          (by simp [Tx.accepted, Instruction.accepted, called])
    | @finishTally f _ poll _ foundPoll =>
        have own := before.ids _ _ foundPoll
        have stored : Function.update r.polls f.pollId (some { poll with tally := f.tally }) =
            Function.update r.polls poll.id (some { poll with tally := f.tally }) := by rw [own]
        refine before.stored { poll with tally := f.tally } stored ?_
          (fun _ => by simp [voteEvents_snoc, voteEvent])
            (by simp [Tx.accepted, Instruction.accepted, called])
        change Records.digest _ poll.id = poll.cumulativeMsgHash
        rw [own]
        exact Records.digest_of_found foundPoll
    | initializeConfig | updateConfig | createTally | tallyBatch | closeTally | withdrawPoll =>
        exact before.quiet rfl (fun _ => rfl) (by simp [Tx.accepted, Instruction.accepted, called])

theorem initial (clock : UInt64) (lamports : Address → Nat) :
    Logged H [] (genesis clock lamports).records where
  ids := by simp [genesis, Ledger.records]
  messages := fun _ => rfl
  hashed := by simp [genesis, Ledger.records, voteEvents]
  chained := fun _ => rfl

theorem of_run {clock : UInt64} {lamports : Address → Nat} {l : Ledger}
    (run : Steps (Step H env) (genesis clock lamports) es l) : Logged H es l.records :=
  run.invariant (I := fun past mid => Logged H past mid.records) (initial clock lamports)
    fun _ _ _ _ _ before next => before.step next

end Logged

theorem Effect.events {signers : List Address} {r r' : Records} {i : Instruction}
    (effect : Effect H env signers r i r') :
    r'.events = r.events ∨ ∃ event, r'.events = r.events ++ [event] := by
  cases effect with
  | createPoll => exact .inr ⟨_, rfl⟩
  | vote voted | voteWithRelayer _ _ voted =>
      cases voted
      exact .inr ⟨_, rfl⟩
  | finishTally => exact .inr ⟨_, rfl⟩
  | _ => exact .inl rfl

theorem Step.voteEvents {l l' : Ledger} {e : Applied} (step : Step H env l e l') (id : UInt64) :
    voteEvents l'.events id = voteEvents l.events id ∨
      ∃ event, voteEvents l'.events id = voteEvents l.events id ++ [event] := by
  rcases step.outcome with ⟨_, _, _, same⟩ | ⟨_, _, r, _, _, _, _, before, effect⟩
  · exact .inl (by rw [same])
  · rw [← before]
    rcases effect.events with same | ⟨event, more⟩
    · exact .inl (congrArg (Program.voteEvents · id) same)
    · rw [show l'.events = r.events ++ [event] from more, voteEvents_snoc]
      cases event with
      | vote event =>
          rw [voteEvent]
          split_ifs
          · exact .inr ⟨event, rfl⟩
          · exact .inl (List.append_nil _)
      | createPoll | finishTally => exact .inl (List.append_nil _)

/-- The first votes of a poll were all of them at some point of the run. -/
theorem run_to_votes {clock : UInt64} {lamports : Address → Nat} {es : List Applied}
    {l : Ledger} {id : UInt64}
    {seen : List VoteEvent} (run : Steps (Step H env) (genesis clock lamports) es l)
    (first : seen <+: voteEvents l.events id) : ∃ es₁ l₁, es₁ <+: es ∧
    Steps (Step H env) (genesis clock lamports) es₁ l₁ ∧ voteEvents l₁.events id = seen := by
  have split := run.invariant (I := fun past mid => Steps (Step H env) (genesis clock lamports) past mid ∧
    ∀ seen, seen <+: voteEvents mid.events id → ∃ es₁ l₁, es₁ <+: past ∧
      Steps (Step H env) (genesis clock lamports) es₁ l₁ ∧ voteEvents l₁.events id = seen) ?_ ?_
  · exact split.2 seen first
  · refine ⟨.nil _, fun seen first => ⟨[], _, List.prefix_refl _, .nil _, ?_⟩⟩
    exact (List.prefix_nil.1 first).symm
  · rintro past mid e mid' _ ⟨before, earlier⟩ step
    refine ⟨before.snoc step, fun seen first => ?_⟩
    have old (first : seen <+: voteEvents mid.events id) : ∃ es₁ l₁, es₁ <+: past ++ [e] ∧
        Steps (Step H env) (genesis clock lamports) es₁ l₁ ∧ voteEvents l₁.events id = seen := by
      obtain ⟨es₁, l₁, inside, rest⟩ := earlier seen first
      exact ⟨es₁, l₁, inside.trans (List.prefix_append _ _), rest⟩
    rcases step.voteEvents id with same | ⟨event, more⟩
    · exact old (same ▸ first)
    · rw [more, List.prefix_concat_iff] at first
      rcases first with all | first
      · exact ⟨past ++ [e], mid', List.prefix_refl _, before.snoc step, by rw [more, all]⟩
      · exact old first

end accepted

section decoded

structure Encodes (m : Message) (p : EncryptedMessage) : Prop where
  x : Word.ofFr m.ephPk.1 = p.ephPk.x
  y : Word.ofFr m.ephPk.2 = p.ephPk.y
  nonce : Word.ofFr m.nonce = u64ToU256 p.nonce
  ciphertext : ∀ i, Word.ofFr (m.ciphertext i) = p.ciphertext i

theorem Encodes.iff_preimage {m : Message} {p : EncryptedMessage} :
    Encodes m p ↔ m.preimage.map Word.ofFr = p.preimage := by
  have words : (List.ofFn m.ciphertext).map Word.ofFr = List.ofFn p.ciphertext ↔
      ∀ i, Word.ofFr (m.ciphertext i) = p.ciphertext i := by
    rw [List.map_ofFn, List.ofFn_inj, funext_iff]
    rfl
  simp only [Message.preimage, EncryptedMessage.preimage, List.map_cons, List.cons.injEq, words]
  constructor
  · rintro ⟨x, y, nonce, ciphertext⟩
    exact ⟨x, y, nonce, ciphertext⟩
  · rintro ⟨x, y, nonce, ciphertext⟩
    exact ⟨x, y, nonce, ciphertext⟩

theorem Encodes.leftUnique : Relator.LeftUnique Encodes := by
  intro m m' p left right
  rw [Encodes.iff_preimage] at left right
  have same := List.map_injective_iff.2 (fun _ _ => Word.ofFr_injective) (left.trans right.symm)
  exact Message.preimage_injective same

theorem exists_encodes {p : EncryptedMessage} {h : Word} (hashed : (wordHash H).hash p.preimage = some h) :
    ∃ m x, Encodes m p ∧ H.hash m.preimage = some x ∧ Word.ofFr x = h := by
  obtain ⟨xs, x, same, isX, encoded⟩ := wordHash_eq_some_iff.1 hashed
  have canonical : ∀ w ∈ p.preimage, Word.ofFr (Word.reduce w) = w := by
    intro w member
    rw [same] at member
    obtain ⟨y, _, rfl⟩ := List.mem_map.1 member
    rw [Word.reduce_ofFr]
  have cipher (i : Fin ctLen) : p.ciphertext i ∈ p.preimage :=
    List.mem_append_right [_, _, _] ((List.mem_ofFn' _ _).2 ⟨i, rfl⟩)
  let m : Message :=
    { ephPk := (Word.reduce p.ephPk.x, Word.reduce p.ephPk.y), nonce := Word.reduce (u64ToU256 p.nonce)
      ciphertext := fun i => Word.reduce (p.ciphertext i) }
  have encodes : Encodes m p :=
    ⟨canonical _ (by simp [EncryptedMessage.preimage]), canonical _ (by simp [EncryptedMessage.preimage]),
      canonical _ (by simp [EncryptedMessage.preimage]), fun i => canonical _ (cipher i)⟩
  refine ⟨m, x, encodes, ?_, encoded⟩
  rw [Encodes.iff_preimage, same] at encodes
  rw [List.map_injective_iff.2 (fun _ _ => Word.ofFr_injective) encodes, isX]

theorem exists_absorbs {events : List VoteEvent} {digest : Word} (acc : Fr)
    (hashed : ∀ event ∈ events, (wordHash H).hash event.message.preimage = some event.msgHash)
    (chained : (wordHash H).chain (Word.ofFr acc) (events.map VoteEvent.msgHash) = some digest) :
    ∃ ms c, List.Forall₂ Encodes ms (events.map VoteEvent.message) ∧ Absorbs H acc ms c ∧
    Word.ofFr c = digest := by
  induction events generalizing acc with
  | nil =>
      cases chained
      exact ⟨[], acc, .nil, .nil acc, rfl⟩
  | cons event events ih =>
      obtain ⟨m, x, encodes, isX, msgHash⟩ := exists_encodes (hashed event (by simp))
      rw [List.map_cons, IdealHash.chain_cons, Option.bind_eq_some_iff] at chained
      obtain ⟨next, first, rest⟩ := chained
      rw [← msgHash, show [Word.ofFr acc, Word.ofFr x] = [acc, x].map Word.ofFr from rfl, wordHash_ofFr,
        Option.map_eq_some_iff] at first
      obtain ⟨mid, isMid, rfl⟩ := first
      obtain ⟨ms, c, encoded, absorbed, digest⟩ :=
        ih mid (fun other member => hashed other (by simp [member])) rest
      exact ⟨m :: ms, c, .cons encodes encoded, (Absorbs.single isX isMid).append absorbed, digest⟩

theorem Logged.absorbs {es : List Applied} {r : Records} (logged : Logged H es r) (id : UInt64) :
    ∃ ms c, List.Forall₂ Encodes ms (accepted es id) ∧ Absorbs H 0 ms c ∧ Word.ofFr c = r.digest id := by
  have chained := logged.chained id
  rw [← Word.ofFr_zero] at chained
  have absorbed := exists_absorbs 0 (logged.hashed id) chained
  rwa [logged.messages] at absorbed

end decoded

section batches

abbrev Batch := Mootvote.Tally 64 11 6

/-- Verified proofs have witnesses of the tally circuit, which the extractor finds. -/
structure Sound (G : Gadgets H) (env : Env) (extract : Proof → List Word → Batch) : Prop where
  constraints : ∀ proof inputs, env.verifyTally proof inputs = true → (extract proof inputs).Constraints G
  publicSignals : ∀ proof inputs, env.verifyTally proof inputs = true →
    (extract proof inputs).publicSignals.map Word.ofFr = inputs

variable (env) (extract : Proof → List Word → Batch)

def TallyBatch.witness (b : TallyBatch) (tallies : UInt64 → Address → Option TallyAccount) :
    Option Batch := do
  let tally ← tallies b.tallyPollId b.tallyOwner
  let proof ← env.decompress b.proof
  return extract proof (b.publicInputs tally)

def Applied.batches (pollId : UInt64) (owner : Address) (ws : List Batch) (e : Applied) : List Batch :=
  match e.tx.call.instruction with
  | some (.createTally c) => if pollId = c.pollId ∧ owner = c.payer then [] else ws
  | some (.tallyBatch b) =>
      if pollId = b.tallyPollId ∧ owner = b.tallyOwner then ws ++
        (b.witness env extract e.before.tallies).toList else ws
  | _ => ws

/-- The proofs applied to a Tally account since its last `create_tally`. -/
def batchesSince (es : List Applied) (pollId : UInt64) (owner : Address) : List Batch :=
  es.foldl (Applied.batches env extract pollId owner) []

theorem batchesSince_snoc (es : List Applied) (e : Applied) (pollId : UInt64) (owner : Address) :
    batchesSince env extract (es ++ [e]) pollId owner =
      e.batches env extract pollId owner (batchesSince env extract es pollId owner) := by
  simp [batchesSince]

variable {env extract}

theorem batchesSince_extracted {es : List Applied} {pollId : UInt64} {owner : Address} {w : Batch}
    (member : w ∈ batchesSince env extract es pollId owner) : ∃ proof inputs, extract proof inputs = w := by
  induction es using List.reverseRecOn with
  | nil => cases member
  | append_singleton past e ih =>
      rw [batchesSince_snoc, Applied.batches] at member
      split at member
      · split_ifs at member
        · cases member
        · exact ih member
      · split_ifs at member
        · rcases List.mem_append.1 member with old | new
          · exact ih old
          · simp only [TallyBatch.witness, Option.mem_toList, Option.bind_eq_bind,
              Option.bind_eq_some_iff, Option.pure_def, Option.some.injEq] at new
            obtain ⟨_, _, proof, _, same⟩ := new
            exact ⟨proof, _, same⟩
        · exact ih member
      · exact ih member

structure BatchStep (G : Gadgets H) (a : TallyAccount) (w : Batch) (a' : TallyAccount) : Prop where
  constraints : w.Constraints G
  publicSignals : w.publicSignals.map Word.ofFr =
    [a.tallyHash, a'.root, a'.cumulativeMsgHash, a'.tallyHash, a.root, a.cumulativeMsgHash]

def TallyAccount.fresh (tallyHash : Word) : TallyAccount := { tallyHash, cumulativeMsgHash := 0, root := 0 }

/-- Every Tally account was reached by the proofs applied to it since it was created. -/
def Batched (G : Gadgets H) (env : Env) (extract : Proof → List Word → Batch) (es : List Applied)
    (r : Records) : Prop :=
  ∀ pollId owner tally, r.tallies pollId owner = some tally →
    ∃ tallyHash, Steps (BatchStep G) (.fresh tallyHash) (batchesSince env extract es pollId owner) tally

namespace Batched

variable {G : Gadgets H} {es : List Applied} {e : Applied} {l l' : Ledger}

theorem quiet {r r' : Records} (batched : Batched G env extract es r) (tallies : r'.tallies = r.tallies)
    (none : ∀ pollId owner ws, e.batches env extract pollId owner ws = ws) :
    Batched G env extract (es ++ [e]) r' := by
  intro pollId owner tally found
  rw [tallies] at found
  rw [batchesSince_snoc, none]
  exact batched pollId owner tally found

theorem removed {r r' : Records} {pollId : UInt64} {owner : Address} (batched : Batched G env extract es r)
    (none : ∀ pollId owner ws, e.batches env extract pollId owner ws = ws)
    (tallies : r'.tallies = r.tallies) :
    Batched G env extract (es ++ [e]) (r'.setTally pollId owner .none) := by
  intro otherPoll otherOwner tally found
  rw [Records.setTally_tallies] at found
  split_ifs at found with same
  rw [tallies] at found
  rw [batchesSince_snoc, none]
  exact batched otherPoll otherOwner tally found

theorem created {r : Records} {c : CreateTally} (batched : Batched G env extract es r)
    (called : e.tx.call.instruction = some (.createTally c)) :
    Batched G env extract (es ++ [e]) (r.setTally c.pollId c.payer (some (.fresh c.initialTallyHash))) := by
  intro pollId owner tally found
  rw [Records.setTally_tallies] at found
  rw [batchesSince_snoc, Applied.batches, called]
  dsimp only
  split_ifs at found ⊢ with same
  · cases found
    exact ⟨c.initialTallyHash, .nil _⟩
  · exact batched pollId owner tally found

theorem applied {r : Records} {b : TallyBatch} {tally : TallyAccount} {proof : Proof}
    (sound : Sound G env extract)
    (batched : Batched G env extract es r) (called : e.tx.call.instruction = some (.tallyBatch b))
    (before : e.before.tallies = r.tallies) (found : r.tallies b.tallyPollId b.tallyOwner = some tally)
    (decompressed : env.decompress b.proof = some proof)
    (verified : env.verifyTally proof (b.publicInputs tally) = true) :
    Batched G env extract (es ++ [e]) (r.setTally b.tallyPollId b.tallyOwner (some b.tallyNew)) := by
  intro pollId owner other foundOther
  rw [Records.setTally_tallies] at foundOther
  rw [batchesSince_snoc, Applied.batches, called]
  dsimp only
  split_ifs at foundOther ⊢ with same
  · cases foundOther
    obtain ⟨rfl, rfl⟩ := same
    have witness : b.witness env extract e.before.tallies = some (extract proof (b.publicInputs tally)) := by
      simp [TallyBatch.witness, before, found, decompressed]
    rw [witness, Option.toList_some]
    obtain ⟨tallyHash, run⟩ := batched _ _ _ found
    exact ⟨tallyHash, run.snoc ⟨sound.constraints _ _ verified, sound.publicSignals _ _ verified⟩⟩
  · exact batched pollId owner other foundOther

theorem step (sound : Sound G env extract) (batched : Batched G env extract es l.records)
    (step : Step H env l e l') : Batched G env extract (es ++ [e]) l'.records := by
  rcases step.outcome with ⟨called, _, tallies, _⟩ | ⟨i, signers, r, called, _, _, tallies, _, effect⟩
  · exact batched.quiet tallies (by simp [Applied.batches, called])
  · have before : Batched G env extract es r := fun pollId owner tally found =>
      batched pollId owner tally (by rwa [tallies] at found)
    generalize l'.records = r' at effect
    cases effect with
    | vote voted | voteWithRelayer _ _ voted =>
        cases voted
        exact before.quiet rfl (by simp [Applied.batches, called])
    | createTally c => exact before.created called
    | tallyBatch found decompressed verified =>
        have applied : e.before.tallies = r.tallies := by rw [step.before, tallies]
        exact before.applied sound called applied found decompressed verified
    | finishTally => exact before.removed (by simp [Applied.batches, called]) rfl
    | closeTally => exact before.removed (by simp [Applied.batches, called]) rfl
    | createPoll | initializeConfig | updateConfig | withdrawPoll =>
        exact before.quiet rfl (by simp [Applied.batches, called])

theorem of_run (sound : Sound G env extract) {clock : UInt64} {lamports : Address → Nat}
    (run : Steps (Step H env) (genesis clock lamports) es l) : Batched G env extract es l.records :=
  run.invariant (I := fun past mid => Batched G env extract past mid.records)
    (by simp [Batched, genesis, Ledger.records]) fun _ _ _ _ _ before next => before.step sound next

end Batched

/-- The words of an account encode what the circuit carries between batches. -/
structure TallyAccount.Holds (a : TallyAccount) (s : TallyState) : Prop where
  tallyHash : Word.ofFr s.tallyHash = a.tallyHash
  cumulativeMsgHash : Word.ofFr s.cumulativeMsgHash = a.cumulativeMsgHash
  root : Word.ofFr s.root = a.root

theorem TallyAccount.Holds.unique {a : TallyAccount} {s s' : TallyState} (holds : a.Holds s)
    (holds' : a.Holds s') :
    s = s' := by
  obtain ⟨root, cumulativeMsgHash, tallyHash⟩ := s
  obtain ⟨root', cumulativeMsgHash', tallyHash'⟩ := s'
  rw [TallyState.mk.injEq]
  exact ⟨Word.ofFr_injective (holds.root.trans holds'.root.symm),
    Word.ofFr_injective (holds.cumulativeMsgHash.trans holds'.cumulativeMsgHash.symm),
    Word.ofFr_injective (holds.tallyHash.trans holds'.tallyHash.symm)⟩

theorem BatchStep.holds {G : Gadgets H} {a a' : TallyAccount} {w : Batch} (step : BatchStep G a w a') :
    a.Holds w.stateOld ∧ a'.Holds w.stateNew := by
  have signals := step.publicSignals
  simp only [Mootvote.Tally.publicSignals, List.map_cons, List.map_nil, List.cons.injEq, and_true] at signals
  obtain ⟨tallyHashOld, rootNew, cumulativeMsgHashNew, tallyHashNew, rootOld, cumulativeMsgHashOld⟩ := signals
  exact ⟨⟨tallyHashOld, cumulativeMsgHashOld, rootOld⟩, ⟨tallyHashNew, cumulativeMsgHashNew, rootNew⟩⟩

theorem batches_run {G : Gadgets H} {a a' : TallyAccount} {ws : List Batch} {s : TallyState}
    (run : Steps (BatchStep G) a ws a') (holds : a.Holds s) :
    ∃ s', a'.Holds s' ∧ Steps (Mootvote.Tally.Step G) s ws s' := by
  induction run generalizing s with
  | nil a => exact ⟨s, holds, .nil s⟩
  | cons first rest ih =>
      obtain ⟨old, new⟩ := first.holds
      obtain ⟨s', holds', run⟩ := ih new
      exact ⟨s', holds', .cons ⟨first.constraints, old.unique holds, rfl⟩ run⟩

theorem fresh_run {G : Gadgets H} {tallyHash : Word} {a : TallyAccount} {ws : List Batch}
    (run : Steps (BatchStep G) (.fresh tallyHash) ws a) :
    ws = [] ∧ a = .fresh tallyHash ∨
      ∃ s s', (s.root = 0 ∧ s.cumulativeMsgHash = 0) ∧ a.Holds s' ∧
      Steps (Mootvote.Tally.Step G) s ws s' := by
  cases run with
  | nil => exact .inl ⟨rfl, rfl⟩
  | cons first rest =>
      obtain ⟨old, new⟩ := first.holds
      obtain ⟨s', holds', run⟩ := batches_run rest new
      exact .inr ⟨_, s', ⟨Word.ofFr_eq_zero.1 old.root, Word.ofFr_eq_zero.1 old.cumulativeMsgHash⟩, holds',
        .cons ⟨first.constraints, rfl, rfl⟩ run⟩

theorem fresh_absorbs {G : Gadgets H} {tallyHash : Word} {a : TallyAccount} {ws : List Batch}
    (run : Steps (BatchStep G) (.fresh tallyHash) ws a) :
    ∃ c, Word.ofFr c = a.cumulativeMsgHash ∧ Absorbs H 0 (ws.flatMap Mootvote.Tally.messages) c := by
  rcases fresh_run run with ⟨rfl, rfl⟩ | ⟨s, s', ⟨_, zero⟩, holds, counted⟩
  · exact ⟨0, Word.ofFr_zero, .nil 0⟩
  · have absorbed := Mootvote.Tally.absorbs_run counted
    rw [zero] at absorbed
    exact ⟨_, holds.cumulativeMsgHash, absorbed⟩

end batches

section finish

variable {G : Gadgets H} {extract : Proof → List Word → Batch} {past : List Applied}
  {l l' : Ledger} {e : Applied}
  {f : FinishTally}

/-- When a poll is finished with a Tally account, that account has counted the poll's messages. -/
theorem finish_counts (logged : Logged H past l.records)
    (batched : Batched G env extract past l.records) (step : Step H env l e l')
    (finishes : e.tx.call.instruction = some (.finishTally f)) :
    List.Forall₂ Encodes ((batchesSince env extract past f.tallyPollId f.tallyOwner).flatMap
      Mootvote.Tally.messages)
      (accepted past f.pollId) := by
  obtain ⟨tally, poll, finished⟩ := step.finished finishes
  obtain ⟨tallyHash, run⟩ := batched _ _ _ finished.found
  obtain ⟨c, counted, absorbed⟩ := fresh_absorbs run
  obtain ⟨ms, c', encoded, absorbed', digest⟩ := logged.absorbs f.pollId
  have onRecord : l.records.digest f.pollId = poll.cumulativeMsgHash :=
    Records.digest_of_found finished.foundPoll
  rw [onRecord, ← finished.same, ← counted] at digest
  rw [Word.ofFr_injective digest] at absorbed'
  rwa [absorbed.injective absorbed']

/-- No message is dropped, injected or reordered between the voters and the recorded tally. -/
theorem no_message_lost (sound : Sound G env extract) {clock : UInt64} {lamports : Address → Nat}
    (run : Steps (Step H env) (genesis clock lamports) past l) :
    (∀ e f l', Step H env l e l' → e.tx.call.instruction = some (.finishTally f) →
      List.Forall₂ Encodes ((batchesSince env extract past f.tallyPollId f.tallyOwner).flatMap
        Mootvote.Tally.messages)
        (accepted past f.pollId)) ∧
    ∀ id poll, l.polls id = some poll →
      (wordHash H).chain 0 ((voteEvents l.events id).map VoteEvent.msgHash) =
        some poll.cumulativeMsgHash := by
  have logged := Logged.of_run run
  refine ⟨fun e f l' step finishes => finish_counts logged (.of_run sound run) step finishes, ?_⟩
  intro id poll found
  rw [← Records.digest_of_found (show l.records.polls id = some poll from found)]
  exact logged.chained id

end finish

end history

namespace OneVoter

def payer : Address := .key 21

def message : EncryptedMessage := { ephPk := ⟨1, 2⟩, nonce := 30, ciphertext := ![5, 1, 100, 7, 0, 0, 0] }

def env : Env where
  decompress _ := some { a := 0, b := 0, c := 0 }
  verifyVote _ _ := true
  verifyTally _ inputs := inputs = (DoubleCount.batch false).publicSignals.map Word.ofFr
  verifyRelay _ _ := true
  addressBytes _ := 0
  minimumBalance _ := 0

def extract (_ : Proof) (_ : List Word) : Batch := DoubleCount.batch false

theorem sound : Sound DoubleCount.gadgets env extract where
  constraints := fun _ _ _ => DoubleCount.batch_constraints false
  publicSignals := by
    intro _ _ verified
    exact (of_decide_eq_true verified).symm

def proof : CompressedProof := { a := 0, b := 0, c := 0 }

def lamports (_ : Address) : Nat := 0

def sign (now : UInt64) (call : Call) : Tx := { now, signers := [21], call }

def setup : List Tx :=
  [sign 0 (.initializeRelayer { payer, endpoint := "", feeKey := payer, admin := payer, fee := 0 }),
    sign 0 (.mootvote (.initializeConfig { payer, admin := payer, fee := 0, feeDestination := payer })),
    sign 0 (.mootvote (.createPoll
      { payer, id := 7, nChoices := 1, descriptionUrl := "", censusUrl := "", tallierKey := ⟨0, 0⟩, censusRoot := 0
        votingStartTime := 1, votingEndTime := 10, fee := 0, feeDestination := payer, nVoters := 1 }))]

def cast (now : UInt64) : Tx := sign now (.mootvote (.vote
  { payer, pollFeeDestination := payer, pollId := 7, platformFeeDestination := payer, message, proof }))

def create (initialTallyHash : Word) : Tx := sign 11
    (.mootvote (.createTally { payer, pollId := 7, initialTallyHash }))

def count : Tx := sign 11 (.mootvote (.tallyBatch
  { tallyPollId := 7, tallyOwner := payer, proof, rootNew := 107, cumulativeMsgHashNew := 105,
    tallyHashNew := 111 }))

def finishTally : FinishTally :=
  { payer, tallyPollId := 7, tallyOwner := payer, pollId := 7, tally := [1], tallySalt := 9 }

def finish : Tx := sign 11 (.mootvote (.finishTally finishTally))

def outcome (txs : List Tx) : Outcome Ledger := replay DoubleCount.hash env (genesis 0 lamports) txs

def tallyOf (result : Outcome Ledger) : Option (List UInt64) :=
  match result with
  | .error _ => none
  | .ok l => (l.polls 7).map Poll.tally

theorem runs_split {front back : List Tx} {tx : Tx} {tally : List UInt64}
    (recorded : tallyOf (outcome (front ++ tx :: back)) = some tally) : ∃ past l e l₁ later l₂,
    Steps (Step DoubleCount.hash env) (genesis 0 lamports) past l ∧ Step DoubleCount.hash env l e l₁ ∧
      Steps (Step DoubleCount.hash env) l₁ later l₂ ∧ past.map Applied.tx = front ∧ e.tx = tx ∧
      later.map Applied.tx = back ∧ (l₂.polls 7).map Poll.tally = some tally := by
  cases done : outcome (front ++ tx :: back) with
  | error error =>
      rw [done] at recorded
      cases recorded
  | ok l₂ =>
      rw [done] at recorded
      obtain ⟨past, l, e, l₁, later, before, step, after, isFront, isTx, isBack⟩ := replay_split done
      exact ⟨past, l, e, l₁, later, l₂, before, step, after, isFront, isTx, isBack, recorded⟩

theorem accepted_eq (es : List Applied) (id : UInt64) :
    accepted es id = (es.map Applied.tx).flatMap (Tx.accepted id) := by
  rw [accepted, List.flatMap_map]

theorem counted : tallyOf (outcome (setup ++ [cast 5, create 110, count] ++ [finish])) = some [1] := by
  decide +kernel

theorem no_message_lost_counted : ∃ past l e l', Step DoubleCount.hash env l e l' ∧
    accepted past 7 = [message] ∧
    List.Forall₂ Encodes ((batchesSince env extract past 7 payer).flatMap Mootvote.Tally.messages)
    (accepted past 7) ∧
    ∀ id poll, l.polls id = some poll →
      (wordHash DoubleCount.hash).chain 0 ((voteEvents l.events id).map VoteEvent.msgHash) =
        some poll.cumulativeMsgHash := by
  obtain ⟨past, l, e, l', _, _, run, step, _, front, isFinish, _⟩ := runs_split counted
  obtain ⟨finishes, chained⟩ := no_message_lost sound run
  refine ⟨past, l, e, l', step, ?_, finishes e finishTally l' step (by rw [isFinish]; rfl), chained⟩
  rw [accepted_eq, front]
  rfl

end OneVoter

end Mootvote.Program
