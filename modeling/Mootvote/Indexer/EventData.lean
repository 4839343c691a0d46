import Mootvote.Indexer.Db
import Mootvote.Program.VoteData
import Mootvote.Program.History
import Mootvote.Shared.Base64

set_option autoImplicit false

/-!
# The bytes of events

From `emit!` to the indexer's queue: Borsh behind a discriminator, in Base64, among the lines of a log.
-/

namespace Mootvote.Indexer.EventData

open Shared Program Program.VoteData

section events

structure CreatePollData where
  pollId : UInt64
  nChoices : UInt8
  tallierKey : Point
  censusRoot : Word
  votingStartTime : UInt64
  votingEndTime : UInt64
  platformFee : UInt64
  fee : UInt64
  feeDestination : Word
  nVoters : UInt64
  descriptionUrl : { s : String // s.utf8ByteSize < 2 ^ 32 }
  censusUrl : { s : String // s.utf8ByteSize < 2 ^ 32 }

def voteEvent : Codec VoteEvent :=
  (Codec.u64.pair <| point.pair <| Codec.u64.pair <| (word.array ctLen).pair word).map
    (fun (pollId, ephPk, nonce, ciphertext, msgHash) =>
      { pollId, message := { ephPk, nonce, ciphertext }, msgHash })
    (fun e => (e.pollId, e.message.ephPk, e.message.nonce, e.message.ciphertext, e.msgHash)) fun _ => rfl

def createPollData : Codec CreatePollData :=
  (Codec.u64.pair <| Codec.u8.pair <| point.pair <| word.pair <| Codec.u64.pair <| Codec.u64.pair <|
      Codec.u64.pair <| Codec.u64.pair <| word.pair <| Codec.u64.pair <| Codec.string.pair Codec.string).map
    (fun (pollId, nChoices, tallierKey, censusRoot, votingStartTime, votingEndTime, platformFee, fee,
        feeDestination, nVoters, descriptionUrl, censusUrl) =>
      { pollId, nChoices, tallierKey, censusRoot, votingStartTime, votingEndTime, platformFee, fee,
        feeDestination
        nVoters, descriptionUrl, censusUrl })
    (fun e => (e.pollId, e.nChoices, e.tallierKey, e.censusRoot, e.votingStartTime, e.votingEndTime,
      e.platformFee, e.fee, e.feeDestination, e.nVoters, e.descriptionUrl, e.censusUrl)) fun _ => rfl

def finishTallyData : Codec (UInt64 × { xs : List UInt64 // xs.length < 2 ^ 32 }) :=
  Codec.u64.pair Codec.u64.vec

end events

section base64

def base64Line (bs : List UInt8) : Line := (Base64.encode bs).map fun u => Char.ofNat u.toNat

def decodeLine (line : Line) : Option (List UInt8) :=
  if line.all fun c => c.toNat < 128 then Base64.decode (line.map unit) else none

theorem unit_sextet {n : Nat} (six : n < 64) :
    unit (Char.ofNat (Base64.sextet n).toNat) = Base64.sextet n ∧
    (Char.ofNat (Base64.sextet n).toNat).toNat < 128 := by
  have all : ∀ n < 64, unit (Char.ofNat (Base64.sextet n).toNat) = Base64.sextet n ∧
      (Char.ofNat (Base64.sextet n).toNat).toNat < 128 := by decide +kernel
  exact all n six

theorem encode_ascii (bs : List UInt8) : ∀ u ∈ Base64.encode bs,
    unit (Char.ofNat u.toNat) = u ∧ (Char.ofNat u.toNat).toNat < 128 := by
  have pads : unit (Char.ofNat Base64.pad.toNat) = Base64.pad ∧
    (Char.ofNat Base64.pad.toNat).toNat < 128 := by
    decide +kernel
  induction bs using Base64.encode.induct with
  | case1 => simp [Base64.encode]
  | case2 a =>
      have below := a.toNat_lt
      simp only [Base64.encode, List.forall_mem_cons, List.not_mem_nil, false_implies, implies_true, and_true]
      exact ⟨unit_sextet (by omega), unit_sextet (by omega), pads, pads⟩
  | case3 a b =>
      have belowA := a.toNat_lt
      have belowB := b.toNat_lt
      simp only [Base64.encode, List.forall_mem_cons, List.not_mem_nil, false_implies, implies_true, and_true]
      exact ⟨unit_sextet (by omega), unit_sextet (by omega), unit_sextet (by omega), pads⟩
  | case4 a b c bs ih =>
      have belowA := a.toNat_lt
      have belowB := b.toNat_lt
      have belowC := c.toNat_lt
      simp only [Base64.encode, List.forall_mem_cons]
      exact ⟨unit_sextet (by omega), unit_sextet (by omega), unit_sextet (by omega),
        unit_sextet (by omega), ih⟩

theorem decodeLine_base64Line (bs : List UInt8) : decodeLine (base64Line bs) = some bs := by
  have ascii : (base64Line bs).all (fun c => c.toNat < 128) = true := by
    simp only [base64Line, List.all_map, List.all_eq_true, Function.comp_apply, decide_eq_true_eq]
    exact fun u member => (encode_ascii bs u member).2
  have units : (base64Line bs).map unit = Base64.encode bs := by
    rw [base64Line, List.map_map]
    conv_rhs => rw [← List.map_id (Base64.encode bs)]
    exact List.map_congr_left fun u member => (encode_ascii bs u member).1
  rw [decodeLine, if_pos ascii, units, Base64.decode_encode]

end base64

section wire

variable (env : Env) (readAddress : Word → Address)

/-- The bytes behind `emit!`; longer texts than Borsh can count are an error. -/
def serialize : Event → Option (List UInt8)
  | .vote e => some (0 :: voteEvent.serialize e)
  | .createPoll e =>
      if fits : e.descriptionUrl.utf8ByteSize < 2 ^ 32 ∧ e.censusUrl.utf8ByteSize < 2 ^ 32 then
        some (1 :: createPollData.serialize
          { pollId := e.pollId
            nChoices := e.nChoices
            tallierKey := e.tallierKey
            censusRoot := e.censusRoot
            votingStartTime := e.votingStartTime
            votingEndTime := e.votingEndTime
            platformFee := e.platformFee
            fee := e.fee
            feeDestination := env.addressBytes e.feeDestination
            nVoters := e.nVoters
            descriptionUrl := ⟨e.descriptionUrl, fits.1⟩
            censusUrl := ⟨e.censusUrl, fits.2⟩ })
      else none
  | .finishTally e =>
      if fits : e.tally.length < 2 ^ 32 then some (2 :: finishTallyData.serialize (e.pollId, ⟨e.tally, fits⟩))
      else none

def payload (e : Event) : Option Line := (serialize env e).map base64Line

def CreatePollData.event (e : CreatePollData) : CreatePollEvent where
  pollId := e.pollId
  nChoices := e.nChoices
  tallierKey := e.tallierKey
  censusRoot := e.censusRoot
  votingStartTime := e.votingStartTime
  votingEndTime := e.votingEndTime
  platformFee := e.platformFee
  fee := e.fee
  feeDestination := readAddress e.feeDestination
  nVoters := e.nVoters
  descriptionUrl := e.descriptionUrl.val
  censusUrl := e.censusUrl.val

/-- `T::deserialize`, for an event with this discriminator. -/
def readAs {A : Type} (discriminator : UInt8) (c : Codec A) (log : Line) : Option A := do
  let borshBytes ← decodeLine log
  if borshBytes.head? = some discriminator then (c.deserialize borshBytes.tail).map Prod.fst else none

def deserialize (log : Line) : Option Event :=
  (readAs 0 voteEvent log).map .vote <|>
    (readAs 1 createPollData log).map (fun e => .createPoll (e.event readAddress)) <|>
      (readAs 2 finishTallyData log).map fun e => .finishTally { pollId := e.1, tally := e.2.val }

variable {env readAddress}

theorem readAs_same {A : Type} (discriminator : UInt8) (c : Codec A) (a : A) :
    readAs discriminator c (base64Line (discriminator :: c.serialize a)) = some a := by
  have whole := c.read_back a []
  rw [List.append_nil] at whole
  simp [readAs, decodeLine_base64Line, whole]

theorem readAs_other {A : Type} {discriminator other : UInt8} (c : Codec A) (bs : List UInt8)
    (different : other ≠ discriminator) : readAs discriminator c (base64Line (other :: bs)) = none := by
  simp [readAs, decodeLine_base64Line, different]

theorem deserialize_payload {e : Event} {line : Line} (written : payload env e = some line)
    (known : ∀ c, e = .createPoll c → readAddress (env.addressBytes c.feeDestination) = c.feeDestination) :
    deserialize readAddress line = some e := by
  have zeroOne : (1 : UInt8) ≠ 0 := by decide
  have zeroTwo : (2 : UInt8) ≠ 0 := by decide
  have oneTwo : (2 : UInt8) ≠ 1 := by decide
  obtain ⟨bytes, serialized, rfl⟩ := Option.map_eq_some_iff.1 written
  cases e with
  | vote e =>
      cases serialized
      simp [deserialize, readAs_same]
  | createPoll e =>
      simp only [serialize, Option.dite_none_right_eq_some, Option.some.injEq] at serialized
      obtain ⟨fits, rfl⟩ := serialized
      simp [deserialize, readAs_other, readAs_same, CreatePollData.event, known e rfl]
  | finishTally e =>
      simp only [serialize, Option.dite_none_right_eq_some, Option.some.injEq] at serialized
      obtain ⟨fits, rfl⟩ := serialized
      simp [deserialize, readAs_other, readAs_same]

end wire

section logs

variable {T : Type} {deserialize : Line → Option T} {programId : Line}

theorem BodyLine.event_eq (inside : Line) (l : BodyLine) :
    l.event deserialize programId inside = (l.event some programId inside).bind deserialize := by
  cases l with
  | data payload =>
      simp only [BodyLine.event]
      split_ifs <;> rfl
  | _ => rfl

theorem Body.events_eq (inside : Line) (body : Body) :
    body.events deserialize programId inside = (body.events some programId inside).filterMap deserialize := by
  induction body generalizing inside with
  | nil => rfl
  | line l rest ih =>
      rw [Body.events, Body.events, List.filterMap_append, ih, BodyLine.event_eq]
      cases l.event some programId inside with
      | none => rfl
      | some payload => cases found : deserialize payload <;> simp [found]
  | frame id n inner rest ihInner ihRest =>
      rw [Body.events, Body.events, List.filterMap_append, ihInner, ihRest]

theorem Frames.events_eq (frames : Frames) :
    frames.events deserialize programId = (frames.events some programId).filterMap deserialize := by
  induction frames with
  | nil => rfl
  | frame id n inner rest ih =>
      rw [Frames.events, Frames.events, List.filterMap_append, ih, Body.events_eq]

end logs

section runs

variable {H : IdealHash Fr} {env : Env} {readAddress : Word → Address} {l l' : Program.Ledger}
  {es : List Applied} {programId : Line} {Sig : Type}

/-- A successful transaction, whose log holds these events of the program among lines of any programs. -/
structure Writes (env : Env) (programId : Line) (content : Meta) (events : List Event) : Prop where
  err : content.err = false
  logs : ∃ frames : Frames, content.logMessages = some frames.render ∧
    (frames.events some programId).map some = events.map (payload env)

theorem filterMap_deserialize {lines : List Line} {events : List Event}
    (written : lines.map some = events.map (payload env))
    (known : ∀ c, .createPoll c ∈ events → readAddress (env.addressBytes c.feeDestination) =
      c.feeDestination) : lines.filterMap (deserialize readAddress) = events := by
  induction events generalizing lines with
  | nil =>
      cases lines with
      | nil => rfl
      | cons => cases written
  | cons e events ih =>
      cases lines with
      | nil => cases written
      | cons line lines =>
          rw [List.map_cons, List.map_cons, List.cons.injEq] at written
          have first : deserialize readAddress line = some e :=
            deserialize_payload written.1.symm fun c same => known c (by simp [same])
          rw [List.filterMap_cons_some first,
            ih written.2 fun c member => known c (List.mem_cons_of_mem _ member)]

theorem Writes.processTx {tx : Tx Sig Meta} {events : List Event}
    (writes : Writes env programId tx.content events)
    (known : ∀ c, .createPoll c ∈ events → readAddress (env.addressBytes c.feeDestination) =
      c.feeDestination) :
    ((processTx (deserialize readAddress) programId tx).elim [] Prod.snd) = events := by
  obtain ⟨frames, logs, written⟩ := writes.logs
  have read : frames.events (deserialize readAddress) programId = events := by
    rw [Frames.events_eq]
    exact filterMap_deserialize written known
  -- A transaction without events is not sent on, which reads as no events too.
  simp only [Indexer.processTx, writes.err, logs, parseLogs_frames, read]
  cases events with
  | nil => rfl
  | cons => rfl

def emitted (l l' : Program.Ledger) : List Event := l'.events.drop l.events.length

/-- The chain's transaction for the steps of its instructions, of which a failed one keeps none. -/
inductive Executes (H : IdealHash Fr) (env : Env) (programId : Line) (tx : Tx Sig Meta) :
    List Applied → Prop
  | failed : tx.content.err = true → Executes H env programId tx []
  | succeeded {l l' : Program.Ledger} {es : List Applied} : Steps (Step H env) l es l' →
      Writes env programId tx.content (emitted l l') → Executes H env programId tx es

theorem events_extend (run : Steps (Step H env) l es l') : l.events <+: l'.events := by
  induction run with
  | nil => exact List.prefix_refl _
  | @cons l mid l' e es step rest ih =>
      refine List.IsPrefix.trans ?_ ih
      rcases step.outcome with ⟨_, _, _, same⟩ | ⟨i, signers, r, _, _, _, _, same, effect⟩
      · rw [same]
      · rw [← same]
        rcases effect.events with kept | ⟨event, more⟩
        · exact (congrArg (r.events <+: ·) kept).mpr (List.prefix_refl _)
        · exact ⟨[event], more.symm⟩

theorem events_kept (run : Steps (Step H env) l es l') : l'.events = l.events ++ emitted l l' := by
  obtain ⟨later, isLater⟩ := events_extend run
  rw [emitted, ← isLater, List.drop_left]

/-- The steps say what is logged, for each of them holds the ledger before it. -/
theorem emitted_unique {m m' : Program.Ledger} (run : Steps (Step H env) l es l')
    (other : Steps (Step H env) m es m') : emitted l l' = emitted m m' := by
  cases es with
  | nil => rw [Steps.nil_iff.1 run, Steps.nil_iff.1 other, emitted, emitted, List.drop_length, List.drop_length]
  | cons e es =>
      obtain ⟨_, first, _⟩ := Steps.cons_iff.1 run
      obtain ⟨_, first', _⟩ := Steps.cons_iff.1 other
      have same : l = m := first.before.symm.trans first'.before
      subst same
      rw [Except.ok.inj ((replay_of_steps run).symm.trans (replay_of_steps other))]

def eventsRead (readAddress : Word → Address) (programId : Line) (txs : List (Tx Sig Meta)) : List Event :=
  (txs.filterMap (processTx (deserialize readAddress) programId)).flatMap Prod.snd

theorem Executes.read {tx : Tx Sig Meta} (executes : Executes H env programId tx es)
    (run : Steps (Step H env) l es l')
    (known : ∀ c, .createPoll c ∈ emitted l l' → readAddress (env.addressBytes c.feeDestination) =
      c.feeDestination) :
    (processTx (deserialize readAddress) programId tx).elim [] Prod.snd = emitted l l' := by
  cases executes with
  | failed err => simp [Steps.nil_iff.1 run, emitted, processTx, err]
  | succeeded run' writes =>
      rw [emitted_unique run' run] at writes
      exact writes.processTx known

theorem events_read {txs : List (Tx Sig Meta)} {batches : List (List Applied)}
    (run : Steps (Step H env) l batches.flatten l')
    (executes : List.Forall₂ (Executes H env programId) txs batches)
    (known : ∀ c, .createPoll c ∈ l'.events → readAddress (env.addressBytes c.feeDestination) =
      c.feeDestination) :
    l'.events = l.events ++ eventsRead readAddress programId txs := by
  induction executes generalizing l with
  | nil => simp [Steps.nil_iff.1 run, eventsRead]
  | @cons tx batch txs batches here _ ih =>
      obtain ⟨mid, first, rest⟩ := Steps.append_iff.1 run
      have after := ih rest
      have kept := events_kept first
      have inside (c : CreatePollEvent) (member : .createPoll c ∈ emitted l mid) :
          .createPoll c ∈ l'.events := by
        rw [after, kept]
        simp [member]
      have read := here.read first fun c member => known c (inside c member)
      have split : eventsRead readAddress programId (tx :: txs) =
          emitted l mid ++ eventsRead readAddress programId txs := by
        rw [← read, eventsRead, List.filterMap_cons]
        cases processTx (deserialize readAddress) programId tx with
        | none => rfl
        | some sent => rfl
      rw [after, kept, split, List.append_assoc]

/-- From the bytes of the logs the indexer reads every event of a run, in order, and each accepted message. -/
theorem run_indexed {clock : UInt64} {lamports : Address → Nat} {txs : List (Tx Sig Meta)}
    {batches : List (List Applied)}
    (run : Steps (Step H env) (genesis clock lamports) batches.flatten l)
    (executes : List.Forall₂ (Executes H env programId) txs batches)
    (known : ∀ c, .createPoll c ∈ l.events → readAddress (env.addressBytes c.feeDestination) =
      c.feeDestination) :
    eventsRead readAddress programId txs = l.events ∧
      ∀ id, (voteEvents (eventsRead readAddress programId txs) id).map VoteEvent.message =
        accepted batches.flatten id := by
  have read := events_read run executes known
  rw [genesis, List.nil_append] at read
  rw [← read]
  exact ⟨rfl, (Logged.of_run run).messages⟩

end runs

namespace OneVote

open ForgedFrame (one mootvote)

def body (lines : List Line) : Body := lines.foldr (fun line rest => .line (.data line) rest) .nil

theorem body_events (lines : List Line) : (body lines).events some mootvote.chars mootvote.chars = lines := by
  induction lines with
  | nil => rfl
  | cons line lines ih =>
      change ((BodyLine.data line).event some mootvote.chars mootvote.chars).toList ++
        (body lines).events some mootvote.chars mootvote.chars = _
      rw [ih, BodyLine.event, if_pos rfl]
      rfl

def plainTx (env : Env) (events : List Event) : Tx Nat Meta where
  signature := 0
  content :=
    { err := false
      logMessages := some (Frames.frame mootvote one (body (events.filterMap (payload env))) .nil).render }
  slot := 0

theorem plainTx_writes {env : Env} {events : List Event} (fit : ∀ e ∈ events, (payload env e).isSome) :
    Writes env mootvote.chars (plainTx env events).content events where
  err := rfl
  logs := by
    refine ⟨_, rfl, ?_⟩
    rw [Frames.events, Frames.events, List.append_nil, body_events]
    induction events with
    | nil => rfl
    | cons e events ih =>
        rw [List.forall_mem_cons] at fit
        obtain ⟨line, isLine⟩ := Option.isSome_iff_exists.1 fit.1
        rw [List.filterMap_cons_some isLine, List.map_cons, List.map_cons, ih fit.2, isLine]

theorem plainTx_executes {H : IdealHash Fr} {env : Env} {l l' : Program.Ledger} {es : List Applied}
    (run : Steps (Step H env) l es l') (fit : ∀ e ∈ l'.events, (payload env e).isSome) :
    Executes H env mootvote.chars (plainTx env (emitted l l')) es := by
  refine .succeeded run (plainTx_writes fun e member => fit e ?_)
  rw [events_kept run]
  exact List.mem_append_right _ member

def failedTx (env : Env) (events : List Event) : Tx Nat Meta :=
  { plainTx env events with content := { (plainTx env events).content with err := true } }

def isPayers (e : Event) : Bool :=
  match e with
  | .createPoll c => c.feeDestination = OneVoter.payer
  | _ => true

def legible (l : Program.Ledger) : Bool :=
  l.events.length = 2 && l.events.all fun e => (serialize OneVoter.env e).isSome && isPayers e

theorem cast_legible :
    (OneVoter.outcome (OneVoter.setup ++ [OneVoter.cast 5])).toOption.map legible = some true := by
  decide +kernel

-- One transaction sets up, the next one fails, and the last one votes.
theorem run_indexed_vote : ∃ (past cast : List Applied) (l : Program.Ledger) (txs : List (Tx Nat Meta)),
    Steps (Step DoubleCount.hash OneVoter.env) (genesis 0 OneVoter.lamports) [past, [], cast].flatten l ∧
    List.Forall₂ (Executes DoubleCount.hash OneVoter.env mootvote.chars) txs [past, [], cast] ∧
    past.map Applied.tx = OneVoter.setup ∧ l.events.length = 2 ∧
    eventsRead (fun _ => OneVoter.payer) mootvote.chars txs = l.events ∧
    ∀ id, (voteEvents (eventsRead (fun _ => OneVoter.payer) mootvote.chars txs) id).map VoteEvent.message =
      accepted [past, [], cast].flatten id := by
  have outcome := cast_legible
  cases done : OneVoter.outcome (OneVoter.setup ++ [OneVoter.cast 5]) with
  | error e =>
      rw [done] at outcome
      cases outcome
  | ok l =>
      rw [done] at outcome
      obtain ⟨es, run, same⟩ := replay_steps done
      obtain ⟨past, cast, rfl, isSetup, _⟩ := List.map_eq_append_iff.1 same
      obtain ⟨mid, before, after⟩ := Steps.append_iff.1 run
      have shown : legible l = true := Option.some.inj outcome
      simp only [legible, Bool.and_eq_true, decide_eq_true_eq, List.all_eq_true] at shown
      obtain ⟨two, each⟩ := shown
      have fit : ∀ e ∈ l.events, (payload OneVoter.env e).isSome := by
        intro e member
        rw [payload, Option.isSome_map]
        exact (each e member).1
      have known (c : CreatePollEvent) (member : .createPoll c ∈ l.events) :
          OneVoter.payer = c.feeDestination := by
        have own := (each _ member).2
        simp only [isPayers, decide_eq_true_eq] at own
        exact own.symm
      have setsUp := plainTx_executes before fun e member => fit e ((events_extend after).subset member)
      have votes := plainTx_executes after fit
      have whole : Steps (Step DoubleCount.hash OneVoter.env) (genesis 0 OneVoter.lamports)
          [past, [], cast].flatten l := by simpa using run
      have fails : Executes DoubleCount.hash OneVoter.env mootvote.chars
        (failedTx OneVoter.env l.events) [] := .failed rfl
      have executes := List.Forall₂.cons setsUp (.cons fails (.cons votes .nil))
      exact ⟨past, cast, l, _, whole, executes, isSetup, two, run_indexed whole executes known⟩

end OneVote

end Mootvote.Indexer.EventData
