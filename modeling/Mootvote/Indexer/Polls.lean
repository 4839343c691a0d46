import Mathlib.Data.List.DropRight
import Mootvote.Indexer.Db
import Mootvote.Program.Phases
import Mootvote.Shared.Paging
import Mootvote.Shared.Steps

set_option autoImplicit false

namespace Mootvote.Indexer.Polls

open Shared Program

abbrev Text := List Char

section ingest

def maxTitleLen : Nat := 100

def maxChoices : Nat := 11

def maxChoiceLen : Nat := 100

def bytesLimit : Nat := 64 * 1024

def isWhitespace (c : Char) : Bool :=
  (9 ≤ c.toNat && c.toNat ≤ 13) || (0x2000 ≤ c.toNat && c.toNat ≤ 0x200a) ||
    [0x20, 0x85, 0xa0, 0x1680, 0x2028, 0x2029, 0x202f, 0x205f, 0x3000].contains c.toNat

def trim (s : Text) : Text := (s.dropWhile isWhitespace).rdropWhile isWhitespace

structure Desc where
  title : Text
  choices : List Text

/-- The answer to the request for a description, after `error_for_status`. -/
structure Response where
  contentLength : Option Nat
  chunks : List (List UInt8)
  broken : Bool

inductive Statement where
  | markBad (reason : String)
  | describe (title : Text) (choices : List Text)
deriving DecidableEq

inductive Received where
  | tooLarge
  | failed
  | body (bytes : List UInt8)

def receive (broken : Bool) : List UInt8 → List (List UInt8) → Received
  | body, [] => if broken then .failed else .body body
  | body, chunk :: chunks =>
      if bytesLimit < body.length + chunk.length then .tooLarge else receive broken (body ++ chunk) chunks

def trimChoice (c : Text) : Option Text :=
  let c := trim c
  if c = [] ∨ maxChoiceLen < c.length then none else some c

def check (nChoices : UInt8) (desc : Desc) : Statement :=
  let title := trim desc.title
  if title = [] ∨ maxTitleLen < title.length then .markBad "invalid title length"
  else if desc.choices = [] ∨ maxChoices < desc.choices.length then .markBad "invalid choices count"
  else if desc.choices.length ≠ nChoices.toNat then .markBad "choices count != n_choices"
  else
    match desc.choices.mapM trimChoice with
    | none => .markBad "choice length invalid"
    | some choices => .describe title choices

variable (deserialize : List UInt8 → Option Desc)

/-- What `ingest` writes after its query, if it writes. -/
def ingest (cmd : DescriptionCmd) (resp : Response) : Option Statement :=
  if resp.contentLength.any fun len => bytesLimit < len then some (.markBad "description too large")
  else
    match receive resp.broken [] resp.chunks with
    | .failed => none
    | .tooLarge => some (.markBad "description too large (>64KiB)")
    | .body bytes => (deserialize bytes).map (check cmd.expectedNChoices)

end ingest

section table

structure PollRecord where
  id : Nat
  poll : PollRow
  title : Option Text
  choices : Option (List Text)
  descriptionInvalidReason : Option String
  censusValid : Option Bool
  voters : List (List UInt8)

-- `VARCHAR(100)`; a text column holds no zero.
def Text.Storable (t : Text) : Prop := t.length ≤ 100 ∧ Char.ofNat 0 ∉ t

instance (t : Text) : Decidable (Text.Storable t) := inferInstanceAs (Decidable (_ ∧ _))

/-- The row after the update; nothing where a constraint of the table is broken. -/
def Statement.write (p : PollRecord) : Statement → Option PollRecord
  | .markBad reason => some { p with descriptionInvalidReason := some reason }
  | .describe title choices =>
      -- The CHECK asks for 1 to 11 choices, but passes none: the `array_length` of an empty array is null.
      if Text.Storable title ∧ (∀ c ∈ choices, Text.Storable c) ∧ choices.length ≤ 11 then
        some { p with title := some title, choices := some choices }
      else none

def Statement.execute (table : List PollRecord) (pollId : Int64) (s : Statement) : Option (List PollRecord) :=
  if table.all fun p => p.poll.pollId ≠ pollId || (s.write p).isSome then
    some (table.map fun p => if p.poll.pollId = pollId then (s.write p).getD p else p)
  else none

def insertPoll (table : List PollRecord) (id : Nat) (e : CreatePollEvent) : List PollRecord :=
  if table.any fun p => p.poll.pollId == e.pollId.toInt64 then table
  else
    table ++ [{ id, poll := pollRow e, title := none, choices := none, descriptionInvalidReason := none
                censusValid := none, voters := [] }]

def finishPoll (table : List PollRecord) (e : FinishTallyEvent) : List PollRecord :=
  table.map fun p =>
    if p.poll.pollId = e.pollId.toInt64 then
      { p with poll := { p.poll with tally := some (e.tally.map UInt64.toInt64) } }
    else p

def setCensus (table : List PollRecord) (pollId : Int64) (valid : Option Bool)
    (voters : List (List UInt8)) : List PollRecord :=
  table.map fun p => if p.poll.pollId = pollId then { p with censusValid := valid, voters } else p

def enqueueUnfinished (table : List PollRecord) : List DescriptionCmd :=
  (table.filter fun p => p.title.isNone).map fun p =>
    { pollId := p.poll.pollId, url := p.poll.descriptionUrl
      expectedNChoices := p.poll.expectedNChoices.toUInt16.toUInt8 }

end table

section server

/-- What a handler answers; `expect` stops it. -/
inductive Answer (A : Type) where
  | ok (a : A)
  | notFound
  | badRequest
  | panic

structure PollOut where
  pollId : UInt64
  title : Text
  choices : List Text
  censusRoot : List UInt8
  tallierKey : List UInt8 × List UInt8
  votingStartTime : UInt64
  votingEndTime : UInt64
  fee : UInt64
  platformFee : UInt64
  feeDestination : Address
  descriptionUrl : String
  censusUrl : String
  tally : Option (List UInt64)

def pollOut (p : PollRecord) : Option PollOut := do
  let title ← p.title
  let choices ← p.choices
  return {
    pollId := p.poll.pollId.toUInt64
    title
    choices
    censusRoot := p.poll.censusRoot
    tallierKey := (p.poll.tallierX, p.poll.tallierY)
    votingStartTime := p.poll.votingStartTime.toUInt64
    votingEndTime := p.poll.votingEndTime.toUInt64
    fee := p.poll.fee.toUInt64
    platformFee := p.poll.platformFee.toUInt64
    feeDestination := p.poll.feeDestination
    descriptionUrl := p.poll.descriptionUrl
    censusUrl := p.poll.censusUrl
    tally := p.poll.tally.map fun tally => tally.map Int64.toUInt64 }

def PollOut.ofEvent (e : CreatePollEvent) (title : Text) (choices : List Text)
    (tally : Option (List UInt64)) : PollOut where
  pollId := e.pollId
  title := title
  choices := choices
  censusRoot := e.censusRoot.bytes
  tallierKey := (e.tallierKey.x.bytes, e.tallierKey.y.bytes)
  votingStartTime := e.votingStartTime
  votingEndTime := e.votingEndTime
  fee := e.fee
  platformFee := e.platformFee
  feeDestination := e.feeDestination
  descriptionUrl := e.descriptionUrl
  censusUrl := e.censusUrl
  tally := tally

def isServed (p : PollRecord) : Bool := p.title.isSome && p.censusValid = some true

def getPoll (table : List PollRecord) (pollId : Int64) : Answer PollOut :=
  match table.find? fun p => p.poll.pollId = pollId && isServed p with
  | none => .notFound
  | some p =>
      match pollOut p with
      | none => .panic
      | some out => .ok out

inductive PollStatus where
  | active
  | upcoming
  | ended

structure UserPollsQuery where
  voterLeaf : Option (List UInt8)
  tallier : Option (List UInt8)
  status : Option PollStatus
  limit : Option Int
  before : Option Int

def inStatus (p : PollRow) (now : Int64) : PollStatus → Bool
  | .active => p.votingStartTime ≤ now && now < p.votingEndTime
  | .upcoming => now < p.votingStartTime
  | .ended => p.votingEndTime ≤ now

/-- The query's conditions but for `p.id < before`. -/
def UserPollsQuery.selects (q : UserPollsQuery) (now : Int64) (p : PollRecord) : Bool :=
  isServed p &&
    ((q.tallier.any fun t => p.poll.tallierX = t.take 32 && p.poll.tallierY = t.drop 32) ||
      q.voterLeaf.any fun leaf => p.voters.contains leaf) &&
    q.status.all (inStatus p.poll now)

def UserPollsQuery.clamped (q : UserPollsQuery) : Nat := (max 1 (min (q.limit.getD 50) 500)).toNat

def UserPollsQuery.start (q : UserPollsQuery) : Int := q.before.getD (2 ^ 63 - 1)

structure PollItem where
  pollId : UInt64
  votingStartTime : UInt64
  votingEndTime : UInt64
  title : Text
  choices : List Text
deriving DecidableEq

def pollItem (p : PollRecord) : Option PollItem := do
  let title ← p.title
  let choices ← p.choices
  return { pollId := p.poll.pollId.toUInt64, votingStartTime := p.poll.votingStartTime.toUInt64
           votingEndTime := p.poll.votingEndTime.toUInt64, title, choices }

structure PollPage where
  items : List PollItem
  nextBefore : Option Int

def PollRecord.key (p : PollRecord) : Int := p.id

def listPolls (table : List PollRecord) (now : Int64) (q : UserPollsQuery) : Answer PollPage :=
  if q.tallier.isNone && q.voterLeaf.isNone then .badRequest
  else
    let (rows, nextBefore) := Paging.page PollRecord.key q.clamped (table.filter (q.selects now)) q.start
    match rows.mapM pollItem with
    | none => .panic
    | some items => .ok { items, nextBefore }

end server

section system

structure Flight where
  pollId : Int64
  statement : Statement
deriving DecidableEq

structure System where
  table : List PollRecord
  nextId : Nat
  queue : List DescriptionCmd
  flights : Nat → Option Flight

def System.fresh : System where
  table := []
  nextId := 1
  queue := []
  flights _ := none

inductive Act where
  | create (e : CreatePollEvent)
  | finish (e : FinishTallyEvent)
  | census (pollId : Int64) (valid : Option Bool) (voters : List (List UInt8))
  | start (i : Nat) (cmd : DescriptionCmd) (response : Response)
  | update (i : Nat)
  | stop (i : Nat)
  | restart

def begin (deserialize : List UInt8 → Option Desc) (table : List PollRecord) (cmd : DescriptionCmd)
    (response : Response) : Option Flight :=
  if table.any fun p => p.poll.pollId == cmd.pollId && p.title.isSome then none
  else (ingest deserialize cmd response).map fun statement => { pollId := cmd.pollId, statement }

variable (deserialize : List UInt8 → Option Desc)

/-- The writers of `polls` and the downloads of descriptions; `skipped` values of the sequence leave gaps. -/
inductive Step : System → Act → System → Prop
  | create {s : System} (e : CreatePollEvent) (skipped : Nat) :
      Step s (.create e)
        { s with
          table := insertPoll s.table (s.nextId + skipped) e
          nextId := s.nextId + skipped + 1
          queue := s.queue ++
            [{ pollId := e.pollId.toInt64, url := e.descriptionUrl, expectedNChoices := e.nChoices }] }
  | finish {s : System} (e : FinishTallyEvent) : Step s (.finish e) { s with table := finishPoll s.table e }
  | census {s : System} (pollId : Int64) (valid : Option Bool) (voters : List (List UInt8)) :
      Step s (.census pollId valid voters) { s with table := setCensus s.table pollId valid voters }
  | start {s : System} {i : Nat} {cmd : DescriptionCmd} {earlier later : List DescriptionCmd}
      (response : Response) (unused : s.flights i = none) (queued : s.queue = earlier ++ cmd :: later) :
      Step s (.start i cmd response)
        { s with
          queue := earlier ++ later
          flights := Function.update s.flights i (begin deserialize s.table cmd response) }
  | update {s : System} {i : Nat} {flight : Flight} (flies : s.flights i = some flight) :
      Step s (.update i)
        { s with
          table := (flight.statement.execute s.table flight.pollId).getD s.table
          flights := Function.update s.flights i none }
  | stop {s : System} (i : Nat) : Step s (.stop i) { s with flights := Function.update s.flights i none }
  | restart {s : System} :
      Step s .restart { s with queue := enqueueUnfinished s.table, flights := fun _ => none }

/-- Events of a poll come from its account, and `finish_tally` checks the length of the counts. -/
def Act.OfChain (nChoices : UInt64 → UInt8) : Act → Prop
  | .create e => e.nChoices = nChoices e.pollId
  | .finish e => e.tally.length = (nChoices e.pollId).toNat
  | _ => True

def Turn (nChoices : UInt64 → UInt8) (s : System) (act : Act) (s' : System) : Prop :=
  Step deserialize s act s' ∧ act.OfChain nChoices

end system

section descriptions

variable {n : UInt8} {title : Text} {choices : List Text}

structure Good (t : Text) : Prop where
  nonempty : t ≠ []
  short : t.length ≤ 100
  trimmed : trim t = t

structure Suits (n : UInt8) (title : Text) (choices : List Text) : Prop where
  goodTitle : Good title
  goodChoices : ∀ c ∈ choices, Good c
  count : choices.length = n.toNat
  positive : 1 ≤ choices.length
  few : choices.length ≤ 11

theorem trim_trim (s : Text) : trim (trim s) = trim s := by
  have start : (trim s).dropWhile isWhitespace = trim s := by
    rw [List.dropWhile_eq_self_iff]
    intro nonempty
    have before : trim s <+: s.dropWhile isWhitespace := List.rdropWhile_prefix _ _
    have inside : 0 < (s.dropWhile isWhitespace).length := nonempty.trans_le before.length_le
    rw [before.getElem nonempty]
    exact List.dropWhile_get_zero_not _ _ inside
  rw [trim, start]
  exact List.rdropWhile_idempotent _ _

theorem good_of_trim {t : Text} (nonempty : trim t ≠ []) (short : (trim t).length ≤ 100) : Good (trim t) :=
  ⟨nonempty, short, trim_trim t⟩

theorem good_of_trimChoice {c c' : Text} (done : trimChoice c = some c') : Good c' := by
  simp only [trimChoice, Option.ite_none_left_eq_some, not_or, Nat.not_lt, Option.some.injEq] at done
  obtain ⟨⟨nonempty, short⟩, rfl⟩ := done
  exact good_of_trim nonempty short

theorem forall₂_of_mapM {A B : Type} {f : A → Option B} {xs : List A} {ys : List B}
    (done : xs.mapM f = some ys) :
    List.Forall₂ (fun x y => f x = some y) xs ys := by
  induction xs generalizing ys with
  | nil =>
      cases done
      exact .nil
  | cons x xs ih =>
      simp only [List.mapM_cons, Option.bind_eq_bind, Option.bind_eq_some_iff, Option.pure_def,
        Option.some.injEq] at done
      obtain ⟨y, here, ys, later, rfl⟩ := done
      exact .cons here (ih later)

theorem check_suits {desc : Desc} (checked : check n desc = .describe title choices) :
    Suits n title choices := by
  simp only [check] at checked
  split_ifs at checked with badTitle badCount badNumber
  cases trimmed : desc.choices.mapM trimChoice with
  | none => simp [trimmed] at checked
  | some cs =>
      simp only [trimmed, Statement.describe.injEq] at checked
      obtain ⟨rfl, rfl⟩ := checked
      have each := forall₂_of_mapM trimmed
      have length : cs.length = desc.choices.length := each.length_eq.symm
      rw [not_or, Nat.not_lt] at badTitle badCount
      have positive := List.length_pos_of_ne_nil badCount.1
      have few : desc.choices.length ≤ 11 := badCount.2
      refine ⟨good_of_trim badTitle.1 badTitle.2, fun c member => ?_, ?_, ?_, ?_⟩
      · obtain ⟨i, inside, rfl⟩ := List.mem_iff_getElem.1 member
        exact good_of_trimChoice (each.get (by omega) inside)
      all_goals omega

def Statement.Suits (n : UInt8) : Statement → Prop
  | .markBad _ => True
  | .describe title choices => Polls.Suits n title choices

theorem ingest_suits {deserialize : List UInt8 → Option Desc} {cmd : DescriptionCmd} {resp : Response}
    {s : Statement} (done : ingest deserialize cmd resp = some s) : s.Suits cmd.expectedNChoices := by
  cases s with
  | markBad reason => trivial
  | describe title choices =>
      unfold ingest at done
      split_ifs at done
      · simp at done
      · cases received : receive resp.broken [] resp.chunks with
        | tooLarge | failed => simp [received] at done
        | body bytes =>
            simp only [received, Option.map_eq_some_iff] at done
            obtain ⟨desc, _, checked⟩ := done
            exact check_suits checked

end descriptions

section invariant

variable {deserialize : List UInt8 → Option Desc} {nChoices : UInt64 → UInt8} {s s' : System} {act : Act}

def choicesOf (nChoices : UInt64 → UInt8) (pollId : Int64) : UInt8 := nChoices pollId.toUInt64

structure Consistent (nChoices : UInt64 → UInt8) (p : PollRecord) : Prop where
  expected : p.poll.expectedNChoices = (choicesOf nChoices p.poll.pollId).toUInt16.toInt16
  described : p.title = none ∧ p.choices = none ∨ ∃ title choices, p.title = some title ∧
    p.choices = some choices ∧ Suits (choicesOf nChoices p.poll.pollId) title choices
  tallied : ∀ tally, p.poll.tally = some tally → tally.length = (choicesOf nChoices p.poll.pollId).toNat

structure Sound (nChoices : UInt64 → UInt8) (s : System) : Prop where
  rows : ∀ p ∈ s.table, Consistent nChoices p
  ids : (s.table.map PollRecord.key).Nodup
  below : ∀ p ∈ s.table, p.id < s.nextId
  pollIds : (s.table.map fun p => p.poll.pollId).Nodup
  queue : ∀ cmd ∈ s.queue, cmd.expectedNChoices = choicesOf nChoices cmd.pollId
  flights : ∀ i flight, s.flights i = some flight → flight.statement.Suits (choicesOf nChoices flight.pollId)

theorem Sound.fresh (nChoices : UInt64 → UInt8) : Sound nChoices .fresh := by
  constructor <;> simp [System.fresh]

theorem Sound.of_map (sound : Sound nChoices s) {f : PollRecord → PollRecord}
    (sameId : ∀ p, (f p).id = p.id) (samePollId : ∀ p, (f p).poll.pollId = p.poll.pollId)
    (keeps : ∀ p ∈ s.table, Consistent nChoices (f p)) :
    Sound nChoices { s with table := s.table.map f } := by
  refine { sound with rows := ?_, ids := ?_, below := ?_, pollIds := ?_ }
  · intro p member
    obtain ⟨q, there, rfl⟩ := List.mem_map.1 member
    exact keeps q there
  · have keys : (s.table.map f).map PollRecord.key = s.table.map PollRecord.key := by
      rw [List.map_map]
      exact List.map_congr_left fun p _ => congrArg Nat.cast (sameId p)
    rw [keys]
    exact sound.ids
  · intro p member
    obtain ⟨q, there, rfl⟩ := List.mem_map.1 member
    rw [sameId]
    exact sound.below q there
  · simpa [List.map_map, Function.comp_def, samePollId] using sound.pollIds

theorem Statement.write_keeps {p p' : PollRecord} {st : Statement} (written : st.write p = some p') :
    p'.id = p.id ∧ p'.poll = p.poll := by
  cases st with
  | markBad reason =>
      simp only [write, Option.some.injEq] at written
      subst written
      exact ⟨rfl, rfl⟩
  | describe title choices =>
      simp only [write, Option.ite_none_right_eq_some, Option.some.injEq] at written
      obtain ⟨_, rfl⟩ := written
      exact ⟨rfl, rfl⟩

theorem Statement.write_getD_keeps (p : PollRecord) (st : Statement) :
    ((st.write p).getD p).id = p.id ∧ ((st.write p).getD p).poll = p.poll := by
  cases written : st.write p with
  | none => exact ⟨rfl, rfl⟩
  | some p' => exact write_keeps written

theorem Statement.write_consistent {p : PollRecord} {st : Statement} (consistent : Consistent nChoices p)
    (suits : st.Suits (choicesOf nChoices p.poll.pollId)) : Consistent nChoices ((st.write p).getD p) := by
  cases written : st.write p with
  | none => exact consistent
  | some p' =>
      cases st with
      | markBad reason =>
          simp only [write, Option.some.injEq] at written
          subst written
          exact ⟨consistent.expected, consistent.described, consistent.tallied⟩
      | describe title choices =>
          simp only [write, Option.ite_none_right_eq_some, Option.some.injEq] at written
          obtain ⟨_, rfl⟩ := written
          exact ⟨consistent.expected, .inr ⟨title, choices, rfl, rfl, suits⟩, consistent.tallied⟩

theorem toUInt8_toInt16 (n : UInt8) : n.toUInt16.toInt16.toUInt16.toUInt8 = n := by
  change n.toUInt16.toUInt8 = n
  exact UInt8.toUInt8_toUInt16 n

theorem Sound.create (sound : Sound nChoices s) {e : CreatePollEvent} {id : Nat} (new : s.nextId ≤ id)
    (ofChain : e.nChoices = nChoices e.pollId) :
    Sound nChoices
      { s with
        table := insertPoll s.table id e
        nextId := id + 1
        queue := s.queue ++
          [{ pollId := e.pollId.toInt64, url := e.descriptionUrl, expectedNChoices := e.nChoices }] } := by
  have queue : ∀ cmd ∈ s.queue ++
      [{ pollId := e.pollId.toInt64, url := e.descriptionUrl, expectedNChoices := e.nChoices }],
      cmd.expectedNChoices = choicesOf nChoices cmd.pollId := by
    intro cmd member
    rcases List.mem_append.1 member with earlier | last
    · exact sound.queue cmd earlier
    · rw [List.mem_singleton.1 last]
      exact ofChain
  -- Skipped values of the sequence only leave room between the ids.
  have older (p : PollRecord) (member : p ∈ s.table) : p.id < id := (sound.below p member).trans_le new
  unfold insertPoll
  split_ifs with there
  · exact ⟨sound.rows, sound.ids, fun p member => (older p member).trans (Nat.lt_succ_self _), sound.pollIds,
      queue, sound.flights⟩
  · refine ⟨?_, ?_, ?_, ?_, queue, sound.flights⟩
    · intro p member
      rcases List.mem_append.1 member with earlier | last
      · exact sound.rows p earlier
      · rw [List.mem_singleton.1 last]
        refine ⟨?_, .inl ⟨rfl, rfl⟩, nofun⟩
        change e.nChoices.toUInt16.toInt16 = _
        rw [ofChain]
        rfl
    · rw [List.map_append, List.nodup_append]
      refine ⟨sound.ids, List.nodup_singleton _, ?_⟩
      intro key member key' isNew same
      obtain ⟨p, inside, rfl⟩ := List.mem_map.1 member
      have smaller := older p inside
      rw [List.map_singleton, List.mem_singleton] at isNew
      rw [isNew] at same
      simp only [PollRecord.key] at same
      omega
    · intro p member
      rcases List.mem_append.1 member with earlier | last
      · exact (older p earlier).trans (Nat.lt_succ_self _)
      · rw [List.mem_singleton.1 last]
        exact Nat.lt_succ_self _
    · rw [List.map_append, List.nodup_append]
      refine ⟨sound.pollIds, List.nodup_singleton _, ?_⟩
      intro pollId member pollId' isNew same
      obtain ⟨p, inside, rfl⟩ := List.mem_map.1 member
      rw [List.map_singleton, List.mem_singleton] at isNew
      refine there (List.any_eq_true.2 ⟨p, inside, ?_⟩)
      rw [same, isNew]
      exact beq_self_eq_true _

theorem Sound.fly (sound : Sound nChoices s) (i : Nat) {entry : Option Flight}
    (suits : ∀ flight, entry = some flight → flight.statement.Suits (choicesOf nChoices flight.pollId)) :
    Sound nChoices { s with flights := Function.update s.flights i entry } := by
  refine { sound with flights := ?_ }
  intro j flight flies
  by_cases same : j = i
  · subst same
    simp only [Function.update_self] at flies
    exact suits flight flies
  · simp only [Function.update_of_ne same] at flies
    exact sound.flights j flight flies

theorem begin_suits {table : List PollRecord} {cmd : DescriptionCmd} {response : Response} {flight : Flight}
    (begun : begin deserialize table cmd response = some flight)
    (expected : cmd.expectedNChoices = choicesOf nChoices cmd.pollId) :
    flight.statement.Suits (choicesOf nChoices flight.pollId) := by
  simp only [begin] at begun
  split_ifs at begun
  obtain ⟨statement, ingested, rfl⟩ := Option.map_eq_some_iff.1 begun
  have suits := ingest_suits ingested
  rw [expected] at suits
  exact suits

theorem Sound.execute (sound : Sound nChoices s) {flight : Flight}
    (suits : flight.statement.Suits (choicesOf nChoices flight.pollId)) :
    Sound nChoices { s with table := (flight.statement.execute s.table flight.pollId).getD s.table } := by
  unfold Statement.execute
  split_ifs
  · refine sound.of_map (fun p => ?_) (fun p => ?_) fun p member => ?_
    · split_ifs
      · exact (Statement.write_getD_keeps p _).1
      · rfl
    · split_ifs
      · rw [(Statement.write_getD_keeps p _).2]
      · rfl
    · split_ifs with own
      · exact Statement.write_consistent (sound.rows p member) (by rw [own]; exact suits)
      · exact sound.rows p member
  · exact sound

theorem Sound.step (sound : Sound nChoices s) (turn : Turn deserialize nChoices s act s') :
    Sound nChoices s' := by
  obtain ⟨step, ofChain⟩ := turn
  cases step with
  | create e skipped => exact sound.create (Nat.le_add_right _ _) ofChain
  | finish e =>
      refine sound.of_map (fun p => ?_) (fun p => ?_) fun p member => ?_
      · split_ifs <;> rfl
      · split_ifs <;> rfl
      · have before := sound.rows p member
        split_ifs with own
        · refine ⟨before.expected, before.described, fun tally stored => ?_⟩
          simp only [Option.some.injEq] at stored
          rw [← stored, List.length_map, own]
          exact ofChain
        · exact before
  | census pollId valid voters =>
      refine sound.of_map (fun p => ?_) (fun p => ?_) fun p member => ?_
      · split_ifs <;> rfl
      · split_ifs <;> rfl
      · have before := sound.rows p member
        split_ifs
        · exact ⟨before.expected, before.described, before.tallied⟩
        · exact before
  | @start i cmd earlier later response unused queued =>
      have inQueue : cmd ∈ s.queue := by simp [queued]
      have shorter : Sound nChoices { s with queue := earlier ++ later } := by
        refine { sound with queue := fun other member => sound.queue other ?_ }
        rw [queued]
        rcases List.mem_append.1 member with front | back
        · exact List.mem_append_left _ front
        · exact List.mem_append_right _ (List.mem_cons_of_mem _ back)
      -- The command still expects the poll's own number of choices, however long it waited.
      exact shorter.fly i fun flight begun => begin_suits begun (sound.queue cmd inQueue)
  | @update i flight flies => exact (sound.execute (sound.flights i flight flies)).fly i nofun
  | stop i => exact sound.fly i nofun
  | restart =>
      -- The column goes through `i16` and back to `u8`.
      refine { sound with queue := fun cmd member => ?_, flights := by simp }
      obtain ⟨p, there, rfl⟩ := List.mem_map.1 member
      have expected := (sound.rows p (List.mem_filter.1 there).1).expected
      change p.poll.expectedNChoices.toUInt16.toUInt8 = _
      rw [expected, toUInt8_toInt16]

theorem sound_run {acts : List Act} (run : Steps (Turn deserialize nChoices) s acts s')
    (sound : Sound nChoices s) : Sound nChoices s' := by
  induction run with
  | nil => exact sound
  | cons turn _ ih => exact ih (sound.step turn)

/-- But for the counts, the columns are those of an event that created the poll. -/
def Recorded (acts : List Act) (p : PollRecord) : Prop :=
  ∃ e, .create e ∈ acts ∧ { p.poll with tally := none } = pollRow e

theorem Recorded.more {acts later : List Act} {p : PollRecord} (recorded : Recorded acts p) :
    Recorded (acts ++ later) p := by
  obtain ⟨e, created, columns⟩ := recorded
  exact ⟨e, List.mem_append_left _ created, columns⟩

theorem recorded_map {acts : List Act} {table : List PollRecord} {f : PollRecord → PollRecord}
    (columns : ∀ p, { (f p).poll with tally := none } = { p.poll with tally := none })
    (recorded : ∀ p ∈ table, Recorded acts p) : ∀ p ∈ table.map f, Recorded acts p := by
  intro p member
  obtain ⟨q, there, rfl⟩ := List.mem_map.1 member
  obtain ⟨e, created, same⟩ := recorded q there
  exact ⟨e, created, (columns q).trans same⟩

theorem Step.recorded {earlier : List Act} (step : Step deserialize s act s')
    (recorded : ∀ p ∈ s.table, Recorded earlier p) : ∀ p ∈ s'.table, Recorded (earlier ++ [act]) p := by
  have kept : ∀ p ∈ s.table, Recorded (earlier ++ [act]) p := fun p member => (recorded p member).more
  cases step with
  | create e skipped =>
      simp only [insertPoll]
      split_ifs
      · exact kept
      · intro p member
        rcases List.mem_append.1 member with old | new
        · exact kept p old
        · rw [List.mem_singleton.1 new]
          exact ⟨e, List.mem_append_right _ (List.mem_singleton_self _), rfl⟩
  | finish e =>
      refine recorded_map (fun p => ?_) kept
      split_ifs <;> rfl
  | census pollId valid voters =>
      refine recorded_map (fun p => ?_) kept
      split_ifs <;> rfl
  | @update i flight flies =>
      simp only [Statement.execute]
      split_ifs
      · refine recorded_map (fun p => ?_) kept
        split_ifs
        · rw [(Statement.write_getD_keeps p _).2]
        · rfl
      · exact kept
  | start | stop | restart => exact kept

theorem recorded_run {acts earlier : List Act} (run : Steps (Turn deserialize nChoices) s acts s')
    (recorded : ∀ p ∈ s.table, Recorded earlier p) : ∀ p ∈ s'.table, Recorded (earlier ++ acts) p := by
  induction run generalizing earlier with
  | nil =>
      rw [List.append_nil]
      exact recorded
  | cons turn _ ih =>
      have later := ih (turn.1.recorded recorded)
      rwa [List.append_assoc, List.singleton_append] at later

end invariant

section served

variable {deserialize : List UInt8 → Option Desc} {nChoices : UInt64 → UInt8} {s s' : System}
  {acts : List Act}

theorem Consistent.pollOut {p : PollRecord} (consistent : Consistent nChoices p)
    (served : isServed p = true) :
    ∃ out, pollOut p = some out ∧ out.pollId = p.poll.pollId.toUInt64 ∧
      Suits (choicesOf nChoices p.poll.pollId) out.title out.choices ∧
      ∀ tally, out.tally = some tally → tally.length = out.choices.length := by
  simp only [isServed, Bool.and_eq_true] at served
  rcases consistent.described with ⟨untitled, _⟩ | ⟨title, choices, isTitle, isChoices, suits⟩
  · simp [untitled] at served
  · refine ⟨_, by rw [Polls.pollOut, isTitle, isChoices]; rfl, rfl, suits, fun tally shown => ?_⟩
    obtain ⟨stored, isTally, rfl⟩ := Option.map_eq_some_iff.1 shown
    rw [List.length_map, consistent.tallied stored isTally]
    exact suits.count.symm

theorem Recorded.pollOut {p : PollRecord} {out : PollOut} (recorded : Recorded acts p)
    (shown : pollOut p = some out) :
    ∃ e, .create e ∈ acts ∧ out = .ofEvent e out.title out.choices out.tally := by
  obtain ⟨e, created, columns⟩ := recorded
  simp only [Polls.pollOut, Option.bind_eq_bind, Option.bind_eq_some_iff, Option.pure_def,
    Option.some.injEq] at shown
  obtain ⟨title, _, choices, _, rfl⟩ := shown
  simp only [pollRow, PollRow.mk.injEq] at columns
  exact ⟨e, created, by simp [PollOut.ofEvent, columns]⟩

theorem Consistent.pollItem {p : PollRecord} (consistent : Consistent nChoices p)
    (served : isServed p = true) : ∃ item, pollItem p = some item := by
  simp only [isServed, Bool.and_eq_true] at served
  rcases consistent.described with ⟨untitled, _⟩ | ⟨title, choices, isTitle, isChoices, _⟩
  · simp [untitled] at served
  · exact ⟨_, by rw [Polls.pollItem, isTitle, isChoices]; rfl⟩

theorem mapM_pollItem {rows : List PollRecord}
    (consistent : ∀ p ∈ rows, Consistent nChoices p ∧ isServed p = true) : ∃ items,
    rows.mapM pollItem = some items := by
  induction rows with
  | nil => exact ⟨[], rfl⟩
  | cons p rows ih =>
      rw [List.forall_mem_cons] at consistent
      obtain ⟨item, here⟩ := consistent.1.1.pollItem consistent.1.2
      obtain ⟨items, later⟩ := ih consistent.2
      exact ⟨item :: items, by simp [List.mapM_cons, here, later]⟩

theorem UserPollsQuery.selects_served {q : UserPollsQuery} {now : Int64} {p : PollRecord}
    (selected : q.selects now p = true) : isServed p = true := by
  simp only [selects, Bool.and_eq_true] at selected
  exact selected.1.1

theorem UserPollsQuery.clamped_pos (q : UserPollsQuery) : 0 < q.clamped := by
  unfold clamped
  omega

theorem Sound.listPolls (sound : Sound nChoices s) (now : Int64) (q : UserPollsQuery) :
    listPolls s.table now q ≠ .panic := by
  unfold Polls.listPolls
  split_ifs
  · simp
  · have rows : ∀ p ∈ (Paging.page PollRecord.key q.clamped (s.table.filter (q.selects now)) q.start).1,
        Consistent nChoices p ∧ isServed p = true := by
      intro p member
      have there := List.mem_filter.1 (Paging.lt_of_mem_page member).1
      exact ⟨sound.rows p there.1, q.selects_served there.2⟩
    obtain ⟨items, done⟩ := mapM_pollItem rows
    simp [done]

theorem Sound.getPoll (sound : Sound nChoices s) (recorded : ∀ p ∈ s.table, Recorded acts p)
    (pollId : Int64) :
    getPoll s.table pollId = .notFound ∨ ∃ out, getPoll s.table pollId = .ok out ∧
      out.pollId = pollId.toUInt64 ∧
      (∃ e, .create e ∈ acts ∧ out = .ofEvent e out.title out.choices out.tally) ∧
      Suits (choicesOf nChoices pollId) out.title out.choices ∧
      ∀ tally, out.tally = some tally → tally.length = out.choices.length := by
  unfold Polls.getPoll
  cases found : s.table.find? fun p => p.poll.pollId = pollId && isServed p with
  | none => exact .inl rfl
  | some p =>
      have chosen := List.find?_some found
      simp only [Bool.and_eq_true, decide_eq_true_eq] at chosen
      obtain ⟨rfl, served⟩ := chosen
      obtain ⟨out, shown, samePoll, suits, counts⟩ :=
        (sound.rows p (List.mem_of_find?_eq_some found)).pollOut served
      have created := (recorded p (List.mem_of_find?_eq_some found)).pollOut shown
      exact .inr ⟨out, by simp only [shown], samePoll, created, suits, counts⟩

/-- A description that `ingest` accepted passes the constraints of the table, unless it holds a zero. -/
theorem Statement.execute_isSome {st : Statement} {n : UInt8} (suits : st.Suits n)
    (noZero : ∀ title choices, st = .describe title choices →
      Char.ofNat 0 ∉ title ∧ ∀ c ∈ choices, Char.ofNat 0 ∉ c)
    (table : List PollRecord) (pollId : Int64) : (st.execute table pollId).isSome := by
  have written (p : PollRecord) : (st.write p).isSome := by
    cases st with
    | markBad reason => rfl
    | describe title choices =>
        obtain ⟨zeroTitle, zeroChoices⟩ := noZero title choices rfl
        have passes : Text.Storable title ∧ (∀ c ∈ choices, Text.Storable c) ∧ choices.length ≤ 11 :=
          ⟨⟨suits.goodTitle.short, zeroTitle⟩,
            fun c member => ⟨(suits.goodChoices c member).short, zeroChoices c member⟩, suits.few⟩
        rw [write, if_pos passes]
        rfl
  simp [execute, written]

/-- What is served is well formed and of the event of its poll, and no `expect` of a handler fails. -/
theorem served_polls (run : Steps (Turn deserialize nChoices) .fresh acts s) :
    (∀ pollId, getPoll s.table pollId = .notFound ∨ ∃ out, getPoll s.table pollId = .ok out ∧
      out.pollId = pollId.toUInt64 ∧
      (∃ e, .create e ∈ acts ∧ out = .ofEvent e out.title out.choices out.tally) ∧
      Suits (choicesOf nChoices pollId) out.title out.choices ∧
      ∀ tally, out.tally = some tally → tally.length = out.choices.length) ∧
    (∀ now q, listPolls s.table now q ≠ .panic) ∧
    ∀ i flight, s.flights i = some flight → (∀ title choices, flight.statement = .describe title choices →
      Char.ofNat 0 ∉ title ∧ ∀ c ∈ choices, Char.ofNat 0 ∉ c) →
      (flight.statement.execute s.table flight.pollId).isSome := by
  have sound := sound_run run (.fresh nChoices)
  have empty : ∀ p ∈ System.fresh.table, Recorded [] p := fun p member => nomatch member
  have recorded := recorded_run run empty
  rw [List.nil_append] at recorded
  refine ⟨sound.getPoll recorded, sound.listPolls, fun i flight flies noZero => ?_⟩
  exact Statement.execute_isSome (sound.flights i flight flies) noZero _ _

end served

section chain

variable {deserialize : List UInt8 → Option Desc} {s s' : System} {acts : List Act} {H : IdealHash Fr}
  {env : Program.Env} {clock : UInt64} {lamports : Program.Address → Nat} {es : List Program.Applied}
  {l : Program.Ledger}

def Act.Logged (events : List Program.Event) : Act → Prop
  | .create e => .createPoll e ∈ events
  | .finish e => .finishTally e ∈ events
  | _ => True

def choicesOn (l : Program.Ledger) (pollId : UInt64) : UInt8 := (l.polls pollId).elim 0 Program.Poll.nChoices

/-- What a run of the programs logs is what the indexer takes for granted. -/
theorem turns_of_run (chain : Steps (Program.Step H env) (Program.genesis clock lamports) es l)
    (run : Steps (Step deserialize) s acts s') (logged : ∀ act ∈ acts, act.Logged l.events) :
    Steps (Turn deserialize (choicesOn l)) s acts s' := by
  have fit := Program.events_fit chain
  induction run with
  | nil => exact .nil _
  | @cons s mid s' act acts step _ ih =>
      rw [List.forall_mem_cons] at logged
      refine .cons ⟨step, ?_⟩ (ih logged.2)
      cases act with
      | create e =>
          obtain ⟨poll, found, choices⟩ := fit _ logged.1
          simp [Act.OfChain, choicesOn, found, choices]
      | finish e =>
          obtain ⟨poll, found, counts⟩ := fit _ logged.1
          simp [Act.OfChain, choicesOn, found, counts]
      | census | start | update | stop | restart => trivial

end chain

section browsing

variable {deserialize : List UInt8 → Option Desc} {nChoices : UInt64 → UInt8} {s s' : System}
  {acts : List Act}

def Keeps (table table' : List PollRecord) : Prop :=
  ∀ p ∈ table, ∃ p' ∈ table', p'.id = p.id ∧ p'.poll.pollId = p.poll.pollId

theorem Keeps.refl (table : List PollRecord) : Keeps table table := fun p member => ⟨p, member, rfl, rfl⟩

theorem Keeps.of_map {table : List PollRecord} {f : PollRecord → PollRecord} (sameId : ∀ p, (f p).id = p.id)
    (samePollId : ∀ p, (f p).poll.pollId = p.poll.pollId) : Keeps table (table.map f) :=
  fun p member => ⟨f p, List.mem_map_of_mem member, sameId p, samePollId p⟩

theorem Step.keeps {act : Act} (step : Step deserialize s act s') : Keeps s.table s'.table := by
  cases step with
  | create e skipped =>
      simp only [insertPoll]
      split_ifs
      · exact .refl _
      · exact fun p member => ⟨p, List.mem_append_left _ member, rfl, rfl⟩
  | finish e => refine .of_map (fun p => ?_) fun p => ?_ <;> split_ifs <;> rfl
  | census pollId valid voters => refine .of_map (fun p => ?_) fun p => ?_ <;> split_ifs <;> rfl
  | @update i flight flies =>
      simp only [Statement.execute]
      split_ifs
      · refine .of_map (fun p => ?_) fun p => ?_
        · split_ifs
          · exact (Statement.write_getD_keeps p _).1
          · rfl
        · split_ifs
          · rw [(Statement.write_getD_keeps p _).2]
          · rfl
      · exact .refl _
  | start | stop | restart => exact .refl _

theorem keeps_run (run : Steps (Turn deserialize nChoices) s acts s') : Keeps s.table s'.table := by
  induction run with
  | nil => exact .refl _
  | cons turn _ ih =>
      intro p member
      obtain ⟨p₁, there, sameId, samePoll⟩ := turn.1.keeps p member
      obtain ⟨p₂, there', sameId', samePoll'⟩ := ih p₁ there
      exact ⟨p₂, there', sameId'.trans sameId, samePoll'.trans samePoll⟩

/-- A request of a reader, with the table and the clock of its time, and what it showed. -/
structure PollsRequest where
  system : System
  now : Int64
  items : List PollItem

def UserPollsQuery.answer (q : UserPollsQuery) (before : Int) (r : PollsRequest) : Answer PollPage :=
  listPolls r.system.table r.now { q with before := some before }

inductive Browsed (q : UserPollsQuery) : Int → List PollsRequest → Prop
  | last {r : PollsRequest} {before : Int}
      (answer : q.answer before r = .ok { items := r.items, nextBefore := none }) : Browsed q before [r]
  | more {r : PollsRequest} {before next : Int} {later : List PollsRequest}
      (answer : q.answer before r = .ok { items := r.items, nextBefore := some next })
      (rest : Browsed q next later) : Browsed q before (r :: later)

def UserPollsQuery.found (q : UserPollsQuery) (r : PollsRequest) : List PollRecord :=
  r.system.table.filter (q.selects r.now)

theorem UserPollsQuery.answer_page {q : UserPollsQuery} {before : Int} {r : PollsRequest}
    {nextBefore : Option Int} (answer : q.answer before r = .ok { items := r.items, nextBefore }) :
    (Paging.page PollRecord.key q.clamped (q.found r) before).2 = nextBefore ∧
      (Paging.page PollRecord.key q.clamped (q.found r) before).1.mapM pollItem = some r.items := by
  have sameLimit : ({ q with before := some before } : UserPollsQuery).clamped = q.clamped := rfl
  have sameRows : ({ q with before := some before } : UserPollsQuery).selects = q.selects := rfl
  have start : ({ q with before := some before } : UserPollsQuery).start = before := rfl
  unfold UserPollsQuery.answer Polls.listPolls at answer
  split_ifs at answer
  rw [sameLimit, sameRows, start, ← UserPollsQuery.found] at answer
  generalize Paging.page PollRecord.key q.clamped (q.found r) before = found at answer ⊢
  obtain ⟨rows, next⟩ := found
  cases shown : rows.mapM pollItem with
  | none => simp [shown] at answer
  | some items =>
      simp only [shown, Answer.ok.injEq, PollPage.mk.injEq] at answer
      exact ⟨answer.2, by rw [← answer.1]⟩

theorem mapM_append {A B : Type} {f : A → Option B} {xs xs' : List A} {ys ys' : List B}
    (front : xs.mapM f = some ys) (back : xs'.mapM f = some ys') : (xs ++ xs').mapM f = some (ys ++ ys') := by
  rw [List.mapM_append, front, back]
  rfl

section pages

variable {q : UserPollsQuery} {before : Int} {requests : List PollsRequest}

theorem Browsed.paged (browsed : Browsed q before requests) :
    ∃ rows, Paging.Paged PollRecord.key q.clamped before (requests.map q.found) rows ∧
      rows.mapM pollItem = some (requests.flatMap PollsRequest.items) := by
  induction browsed with
  | @last r before answer =>
      obtain ⟨stops, shown⟩ := UserPollsQuery.answer_page answer
      exact ⟨_, .last stops, by rw [List.flatMap_singleton, shown]⟩
  | @more r before next later answer _ ih =>
      obtain ⟨goesOn, shown⟩ := UserPollsQuery.answer_page answer
      obtain ⟨rows, paged, rest⟩ := ih
      exact ⟨_, .more goesOn paged, mapM_append shown rest⟩

theorem Browsed.made (browsed : Browsed q before requests) : requests ≠ [] := by
  cases browsed <;> exact List.cons_ne_nil _ _

end pages

theorem pollItem_pollId {p : PollRecord} {item : PollItem} (shown : pollItem p = some item) :
    item.pollId = p.poll.pollId.toUInt64 := by
  simp only [pollItem, Option.bind_eq_bind, Option.bind_eq_some_iff, Option.pure_def,
    Option.some.injEq] at shown
  obtain ⟨_, _, _, _, rfl⟩ := shown
  rfl

theorem map_poll_of_forall₂ {rows : List PollRecord} {items : List PollItem}
    (each : List.Forall₂ (fun p item => pollItem p = some item) rows items) :
    rows.map (fun p => p.poll.pollId.toUInt64) = items.map PollItem.pollId := by
  induction each with
  | nil => rfl
  | cons here _ ih => rw [List.map_cons, List.map_cons, ih, pollItem_pollId here]

theorem mem_of_forall₂ {rows : List PollRecord} {items : List PollItem} {item : PollItem}
    (each : List.Forall₂ (fun p item => pollItem p = some item) rows items) (member : item ∈ items) :
    ∃ p ∈ rows, pollItem p = some item := by
  induction each with
  | nil => cases member
  | @cons p out' rows items here _ ih =>
      rcases List.mem_cons.1 member with rfl | later
      · exact ⟨p, List.mem_cons_self, here⟩
      · obtain ⟨p', there, shown⟩ := ih later
        exact ⟨p', List.mem_cons_of_mem _ there, shown⟩

theorem Browsed.shows {q : UserPollsQuery} {before : Int} {requests : List PollsRequest} {r : PollsRequest}
    (browsed : Browsed q before requests) (member : r ∈ requests) {item : PollItem} (shown : item ∈ r.items) :
    ∃ p ∈ r.system.table, q.selects r.now p = true ∧ pollItem p = some item := by
  obtain ⟨before', nextBefore, answer⟩ : ∃ before' nextBefore,
      q.answer before' r = .ok { items := r.items, nextBefore } := by
    induction browsed with
    | last answer => exact List.mem_singleton.1 member ▸ ⟨_, _, answer⟩
    | more answer _ ih =>
        rcases List.mem_cons.1 member with rfl | later
        · exact ⟨_, _, answer⟩
        · exact ih later
  obtain ⟨_, items⟩ := UserPollsQuery.answer_page answer
  obtain ⟨p, onPage, isItem⟩ := mem_of_forall₂ (forall₂_of_mapM items) shown
  obtain ⟨inside, selected⟩ := List.mem_filter.1 (Paging.lt_of_mem_page onPage).1
  exact ⟨p, inside, selected, isItem⟩

/-- The requests are made in this order while the indexer runs. -/
structure Observed (deserialize : List UInt8 → Option Desc) (nChoices : UInt64 → UInt8)
    (requests : List PollsRequest) : Prop where
  reached : ∀ r ∈ requests, ∃ acts, Steps (Turn deserialize nChoices) .fresh acts r.system
  ordered : requests.Pairwise fun r r' => ∃ acts, Steps (Turn deserialize nChoices) r.system acts r'.system

theorem Sound.same_poll (sound : Sound nChoices s) {p p' : PollRecord} (member : p ∈ s.table)
    (member' : p' ∈ s.table) (same : p.poll.pollId = p'.poll.pollId) : p = p' :=
  List.inj_on_of_nodup_map sound.pollIds member member' same

theorem Observed.same_id {requests : List PollsRequest}
    (observed : Observed deserialize nChoices requests)
    {r r' : PollsRequest} (member : r ∈ requests) (member' : r' ∈ requests) {p p' : PollRecord}
    (inside : p ∈ r.system.table) (inside' : p' ∈ r'.system.table) (same : p.poll.pollId = p'.poll.pollId) :
      p.id = p'.id := by
  have later {a b : PollsRequest} (memberB : b ∈ requests)
      (ordered : ∃ acts, Steps (Turn deserialize nChoices) a.system acts b.system) {x y : PollRecord}
      (insideA : x ∈ a.system.table) (insideB : y ∈ b.system.table)
        (sameXY : x.poll.pollId = y.poll.pollId) : x.id = y.id := by
    obtain ⟨acts, run⟩ := ordered
    obtain ⟨x', there, sameId, samePoll⟩ := keeps_run run x insideA
    obtain ⟨acts', reached⟩ := observed.reached b memberB
    have sound := sound_run reached (.fresh nChoices)
    rw [← sound.same_poll there insideB (samePoll.trans sameXY), sameId]
  have total := List.Pairwise.forall_of_forall_of_flip (R := fun a b : PollsRequest =>
    (∃ acts, Steps (Turn deserialize nChoices) a.system acts b.system) ∨
      ∃ acts, Steps (Turn deserialize nChoices) b.system acts a.system)
    (fun a _ => .inl ⟨[], .nil _⟩) (observed.ordered.imp fun before => .inl before)
    (observed.ordered.imp fun before => .inr before) member member'
  rcases total with before | after
  · exact later member' before inside inside' same
  · exact (later member after inside' inside same.symm).symm

theorem Observed.paged {q : UserPollsQuery} {before : Int} {requests : List PollsRequest}
    {rows : List PollRecord} (observed : Observed deserialize nChoices requests)
    (paged : Paging.Paged PollRecord.key q.clamped before (requests.map q.found) rows) (made : requests ≠ []) :
    rows.Pairwise (fun p p' => p'.key < p.key) ∧
      (∀ p ∈ rows, ∃ r ∈ requests, p ∈ r.system.table ∧ q.selects r.now p = true) ∧
      ∀ pollId, (∀ r ∈ requests, ∃ p ∈ r.system.table, p.poll.pollId = pollId ∧ q.selects r.now p = true ∧
        p.key < before) → ∃ p ∈ rows, p.poll.pollId = pollId := by
  have sound (r : PollsRequest) (member : r ∈ requests) : Sound nChoices r.system := by
    obtain ⟨acts, run⟩ := observed.reached r member
    exact sound_run run (.fresh nChoices)
  have distinct : ∀ table ∈ requests.map q.found, (table.map PollRecord.key).Nodup := by
    intro table member
    obtain ⟨r, there, rfl⟩ := List.mem_map.1 member
    exact (sound r there).ids.sublist (List.filter_sublist.map _)
  obtain ⟨sorted, origin, complete⟩ := paged.exact q.clamped_pos distinct
  have fromRequest (p : PollRecord) (member : p ∈ rows) :
      ∃ r ∈ requests, p ∈ r.system.table ∧ q.selects r.now p = true := by
    obtain ⟨_, table, isTable, inside⟩ := origin p member
    obtain ⟨r, there, rfl⟩ := List.mem_map.1 isTable
    exact ⟨r, there, List.mem_filter.1 inside⟩
  refine ⟨sorted, fromRequest, fun pollId always => ?_⟩
  -- The id of the poll is the same in all tables, so the first one says which key the pages have to hit.
  obtain ⟨r₀, first⟩ := List.exists_mem_of_ne_nil requests made
  obtain ⟨p₀, inside₀, isPoll₀, _, before₀⟩ := always r₀ first
  have found : ∀ table ∈ requests.map q.found, ∃ p ∈ table, p.key = p₀.key := by
    intro table member
    obtain ⟨r, there, rfl⟩ := List.mem_map.1 member
    obtain ⟨p, inside, isPoll, selected, _⟩ := always r there
    have sameId := observed.same_id there first inside inside₀ (isPoll.trans isPoll₀.symm)
    exact ⟨p, List.mem_filter.2 ⟨inside, selected⟩, congrArg Nat.cast sameId⟩
  obtain ⟨p, isRow, sameKey⟩ := complete p₀.key before₀ found
  obtain ⟨r, there, inside, _⟩ := fromRequest p isRow
  -- The row with that key may come from any request; ids are distinct there.
  obtain ⟨p', inside', isPoll', _⟩ := always r there
  have sameId := observed.same_id there first inside' inside₀ (isPoll'.trans isPoll₀.symm)
  have one := List.inj_on_of_nodup_map (sound r there).ids inside inside'
    (sameKey.trans (congrArg Nat.cast sameId).symm)
  exact ⟨p, isRow, by rw [one, isPoll']⟩

/-- While polls come and change, the pages show no poll twice and miss none that suits the query all along. -/
theorem browse_exact {q : UserPollsQuery} {before : Int} {requests : List PollsRequest}
    (observed : Observed deserialize nChoices requests) (browsed : Browsed q before requests) :
    ((requests.flatMap PollsRequest.items).map PollItem.pollId).Nodup ∧
      (∀ r ∈ requests, ∀ item ∈ r.items, ∃ p ∈ r.system.table, q.selects r.now p = true ∧
        pollItem p = some item) ∧
      ∀ pollId, (∀ r ∈ requests, ∃ p ∈ r.system.table, p.poll.pollId = pollId ∧ q.selects r.now p = true ∧
        p.key < before) → ∃ r ∈ requests, ∃ item ∈ r.items, item.pollId = pollId.toUInt64 := by
  obtain ⟨rows, paged, shown⟩ := browsed.paged
  obtain ⟨sorted, fromRequest, complete⟩ := observed.paged paged browsed.made
  have polls : (requests.flatMap PollsRequest.items).map PollItem.pollId =
      rows.map fun p => p.poll.pollId.toUInt64 := (map_poll_of_forall₂ (forall₂_of_mapM shown)).symm
  refine ⟨?_, fun r member item => browsed.shows member, fun pollId always => ?_⟩
  · rw [polls, List.Nodup, List.pairwise_map]
    refine sorted.imp_of_mem fun {p p'} member member' less same => ?_
    obtain ⟨r, there, inside, _⟩ := fromRequest p member
    obtain ⟨r', there', inside', _⟩ := fromRequest p' member'
    have samePoll : p.poll.pollId = p'.poll.pollId := by simpa using congrArg UInt64.toInt64 same
    have sameId := observed.same_id there there' inside inside' samePoll
    simp only [PollRecord.key, sameId, lt_self_iff_false] at less
  · obtain ⟨p, isRow, samePoll⟩ := complete pollId always
    have shownPoll : pollId.toUInt64 ∈ (requests.flatMap PollsRequest.items).map PollItem.pollId := by
      rw [polls, ← samePoll]
      exact List.mem_map_of_mem isRow
    obtain ⟨item, member, isPoll⟩ := List.mem_map.1 shownPoll
    obtain ⟨r, there, inside⟩ := List.mem_flatMap.1 member
    exact ⟨r, there, item, inside, isPoll⟩

end browsing

namespace OnePoll

def event : CreatePollEvent :=
  { pollId := 7, nChoices := 2, tallierKey := ⟨1, 2⟩, censusRoot := 3, votingStartTime := 1,
    votingEndTime := 10
    platformFee := 0, fee := 0, feeDestination := .key 4, nVoters := 1, descriptionUrl := "", censusUrl := "" }

def command : DescriptionCmd := { pollId := 7, url := "", expectedNChoices := 2 }

def response : Response := { contentLength := none, chunks := [[1]], broken := false }

def desc : Desc := { title := [' ', 'T'], choices := [['a'], ['b', ' ']] }

def deserialize (_ : List UInt8) : Option Desc := some desc

def flight : Flight := { pollId := 7, statement := .describe ['T'] [['a'], ['b']] }

def created : System where
  table := insertPoll [] 1 event
  nextId := 2
  queue := [command]
  flights _ := none

def started : System :=
  { created with
    queue := []
    flights := Function.update created.flights 0 (some flight) }

def described : System :=
  { started with
    table := (flight.statement.execute started.table 7).getD started.table
    flights := Function.update started.flights 0 none }

def counted : System := { described with table := setCensus described.table 7 (some true) [[5]] }

def acts : List Act := [.create event, .start 0 command response, .update 0, .census 7 (some true) [[5]]]

theorem begins : begin deserialize created.table command response = some flight := by decide +kernel

theorem run : Steps (Turn deserialize fun _ => 2) .fresh acts counted := by
  have first : Turn deserialize (fun _ => 2) .fresh (.create event) created := ⟨.create event 0, rfl⟩
  have second : Turn deserialize (fun _ => 2) created (.start 0 command response) started := by
    have step : Step deserialize created (.start 0 command response)
        { created with
          queue := [] ++ []
          flights := Function.update created.flights 0 (begin deserialize created.table command response) } :=
      .start response rfl rfl
    rw [begins] at step
    exact ⟨step, trivial⟩
  have flies : started.flights 0 = some flight := rfl
  have third : Turn deserialize (fun _ => 2) started (.update 0) described := ⟨.update flies, trivial⟩
  exact .cons first (.cons second (.cons third (.cons ⟨.census 7 (some true) [[5]], trivial⟩ (.nil _))))

theorem served_polls_one : ∃ s, Steps (Turn deserialize fun _ => 2) .fresh acts s ∧ ∀ pollId,
    getPoll s.table pollId = .notFound ∨ ∃ out, getPoll s.table pollId = .ok out ∧
      out.pollId = pollId.toUInt64 ∧
      (∃ e, .create e ∈ acts ∧ out = .ofEvent e out.title out.choices out.tally) ∧
      Suits (choicesOf (fun _ => 2) pollId) out.title out.choices ∧
      ∀ tally, out.tally = some tally → tally.length = out.choices.length :=
  ⟨counted, run, (served_polls run).1⟩

end OnePoll

namespace TwoPolls

def event : CreatePollEvent := { OnePoll.event with pollId := 8 }

def command : DescriptionCmd := { pollId := 8, url := "", expectedNChoices := 2 }

def flight : Flight := { pollId := 8, statement := .describe ['T'] [['a'], ['b']] }

def created : System where
  table := insertPoll OnePoll.counted.table 2 event
  nextId := 3
  queue := [command]
  flights := OnePoll.counted.flights

def started : System :=
  { created with
    queue := []
    flights := Function.update created.flights 0 (some flight) }

def described : System :=
  { started with
    table := (flight.statement.execute started.table 8).getD started.table
    flights := Function.update started.flights 0 none }

def counted : System := { described with table := setCensus described.table 8 (some true) [[5]] }

/-- The second poll has left the census while a third one was created. -/
def changed : System where
  table := insertPoll (setCensus counted.table 8 (some false) []) 3 { event with pollId := 9 }
  nextId := 4
  queue := [{ command with pollId := 9 }]
  flights := counted.flights

theorem begins : begin OnePoll.deserialize created.table command OnePoll.response = some flight := by decide +kernel

theorem run : Steps (Turn OnePoll.deserialize fun _ => 2) OnePoll.counted
    [.create event, .start 0 command OnePoll.response, .update 0, .census 8 (some true) [[5]]] counted := by
  have first : Turn OnePoll.deserialize (fun _ => 2) OnePoll.counted (.create event) created :=
    ⟨.create event 0, rfl⟩
  have second : Turn OnePoll.deserialize (fun _ => 2) created (.start 0 command OnePoll.response) started := by
    have step : Step OnePoll.deserialize created (.start 0 command OnePoll.response)
        { created with
          queue := [] ++ []
          flights := Function.update created.flights 0
            (begin OnePoll.deserialize created.table command OnePoll.response) } :=
      .start OnePoll.response rfl rfl
    rw [begins] at step
    exact ⟨step, trivial⟩
  have flies : started.flights 0 = some flight := rfl
  have third : Turn OnePoll.deserialize (fun _ => 2) started (.update 0) described := ⟨.update flies, trivial⟩
  exact .cons first (.cons second (.cons third (.cons ⟨.census 8 (some true) [[5]], trivial⟩ (.nil _))))

theorem changes : Steps (Turn OnePoll.deserialize fun _ => 2) counted
    [.census 8 (some false) [], .create { event with pollId := 9 }] changed :=
  .cons ⟨.census 8 (some false) [], trivial⟩ (.cons ⟨.create { event with pollId := 9 } 0, rfl⟩ (.nil _))

def query : UserPollsQuery :=
  { voterLeaf := some [5], tallier := none, status := some .active, limit := some 1, before := none }

def item (pollId : UInt64) : PollItem :=
  { pollId, votingStartTime := 1, votingEndTime := 10, title := ['T'], choices := [['a'], ['b']] }

def requests : List PollsRequest :=
  [{ system := counted, now := 5, items := [item 8] }, { system := changed, now := 6, items := [item 7] }]

theorem browsed : Browsed query 100 requests := .more rfl (.last rfl)

theorem observed : Observed OnePoll.deserialize (fun _ => 2) requests where
  reached := by
    have first := Steps.append_iff.2 ⟨_, OnePoll.run, run⟩
    rintro r (_ | ⟨_, _ | ⟨_, none⟩⟩)
    · exact ⟨_, first⟩
    · exact ⟨_, Steps.append_iff.2 ⟨_, first, changes⟩⟩
    · cases none
  ordered := .cons (fun r later => List.mem_singleton.1 later ▸ ⟨_, changes⟩) (List.pairwise_singleton _ _)

theorem browse_exact_two : ∃ requests, Browsed query 100 requests ∧
    (requests.flatMap PollsRequest.items).map PollItem.pollId = [8, 7] ∧
    ((requests.flatMap PollsRequest.items).map PollItem.pollId).Nodup ∧
      (∀ r ∈ requests, ∀ item ∈ r.items, ∃ p ∈ r.system.table, query.selects r.now p = true ∧
        pollItem p = some item) ∧
      ∀ pollId, (∀ r ∈ requests, ∃ p ∈ r.system.table, p.poll.pollId = pollId ∧ query.selects r.now p = true ∧
        p.key < 100) → ∃ r ∈ requests, ∃ item ∈ r.items, item.pollId = pollId.toUInt64 :=
  ⟨requests, browsed, rfl, browse_exact observed browsed⟩

end TwoPolls

end Mootvote.Indexer.Polls
