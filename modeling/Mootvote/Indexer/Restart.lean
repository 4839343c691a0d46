import Mootvote.Frontend.VotesPage
import Mootvote.Indexer.ReadInOrder

set_option autoImplicit false

namespace Mootvote.Indexer

open Shared Program Frontend

section system

def parseI64 (n : Nat) : Option Int64 := if n < 2 ^ 63 then some (Int64.ofNat n) else none

structure Client where
  processedAfterId : Option UInt64
  items : List VoteOut

def Client.query (c : Client) (limit : Option Int64) : Option VotesQuery :=
  match c.processedAfterId with
  | none => some { limit, after := none }
  | some id => (parseI64 id.toNat).map fun after => { limit, after := some after }

def Client.add (c : Client) (page : Page) : Client where
  processedAfterId := (page.items.getLast?.map VoteOut.id).or c.processedAfterId
  items := c.items ++ page.items

/-- The database, the tasks of the indexer with the channels between them, and a client. -/
structure System (Sig : Type) where
  db : Database Sig
  /-- What the reader has not delivered yet. -/
  unread : List (Tx Sig Meta)
  logs : List (Tx Sig Meta)
  events : List (Sig × List Event)
  taken : Option (Sig × List Event)
  client : Client

inductive Act where
  | deliver
  | process
  | take
  | commit
  | crash (burned : Nat)
  | fetch (limit : Option Int64)

variable {Sig : Type} [DecidableEq Sig]

def System.start (chain : List (Tx Sig Meta)) : System Sig where
  db := .empty Sig
  unread := chain
  logs := []
  events := []
  taken := none
  client := { processedAfterId := none, items := [] }

/-- The database stays, less the ids that an open transaction took. -/
def System.restart (chain : List (Tx Sig Meta)) (s : System Sig) (burned : Nat) : System Sig where
  db := { s.db with nextVoteId := s.db.nextVoteId + burned }
  unread := newerThan Tx.signature s.db.lastSig chain
  logs := []
  events := []
  taken := none
  client := s.client

inductive System.Step (deserialize : Line → Option Event) (programId : Line) (chain : List (Tx Sig Meta))
    (pollId : UInt64) : System Sig → Act → System Sig → Prop
  | deliver {s : System Sig} {tx : Tx Sig Meta} {rest : List (Tx Sig Meta)} (unread : s.unread = tx :: rest) :
      Step deserialize programId chain pollId s .deliver { s with unread := rest, logs := s.logs ++ [tx] }
  | process {s : System Sig} {tx : Tx Sig Meta} {rest : List (Tx Sig Meta)} (logs : s.logs = tx :: rest) :
      Step deserialize programId chain pollId s .process
        { s with logs := rest, events := s.events ++ (processTx deserialize programId tx).toList }
  | take {s : System Sig} {bunch : Sig × List Event} {rest : List (Sig × List Event)} (idle : s.taken = none)
      (events : s.events = bunch :: rest) :
      Step deserialize programId chain pollId s .take { s with events := rest, taken := some bunch }
  | commit {s : System Sig} {bunch : Sig × List Event} {tx : OpenTx Sig} (taken : s.taken = some bunch)
      (executed : executeTx s.db bunch.1 bunch.2 = some tx) :
      Step deserialize programId chain pollId s .commit { s with db := tx.db, taken := none }
  | crash {s : System Sig} (burned : Nat) :
      Step deserialize programId chain pollId s (.crash burned) (s.restart chain burned)
  | fetch {s : System Sig} {limit : Option Int64} {query : VotesQuery} (counted : Database Sig)
      (asked : s.client.query limit = some query) :
      Step deserialize programId chain pollId s (.fetch limit)
        { s with client := s.client.add (listVotes counted s.db pollId.toInt64 query) }

structure LogsRead (deserialize : Line → Option Event) (programId : Line) (emitted : Tx Sig Meta → List Event)
    (tx : Tx Sig Meta) : Prop where
  failed : tx.content.err = true → emitted tx = []
  parsed : tx.content.err = false →
    ∃ logs, tx.content.logMessages = some logs ∧ parseLogs deserialize programId logs = .ok (emitted tx)

def Unfinished (id : UInt64) (events : List Event) : Prop :=
  ∀ e, Event.finishTally e ∈ events → e.pollId ≠ id

end system

section database

variable {Sig : Type}

theorem Unfinished.append {id : UInt64} {events events' : List Event} :
    Unfinished id (events ++ events') ↔ Unfinished id events ∧ Unfinished id events' := by
  simp only [Unfinished, List.mem_append]
  exact ⟨fun all => ⟨fun e member => all e (.inl member), fun e member => all e (.inr member)⟩,
    fun both e member => member.elim (both.1 e) (both.2 e)⟩

theorem toInt64_inj {a b : UInt64} : a.toInt64 = b.toInt64 ↔ a = b :=
  ⟨fun same => by simpa using congrArg Int64.toUInt64 same, congrArg _⟩

def Database.votesOf (db : Database Sig) (id : UInt64) : List VoteRow :=
  db.votes.filter fun r => r.pollId = id.toInt64

def Issued (next : Nat) (id : Int64) : Prop := ∃ n, 0 < n ∧ n < next ∧ n < 2 ^ 63 ∧ id = Int64.ofNat n

theorem ofNat_lt {m n : Nat} (left : m < 2 ^ 63) (right : n < 2 ^ 63) :
    Int64.ofNat m < Int64.ofNat n ↔ m < n := by
  rw [Int64.lt_iff_toInt_lt, Int64.toInt_ofNat_of_lt left, Int64.toInt_ofNat_of_lt right, Int.ofNat_lt]

theorem Issued.mono {next next' : Nat} {id : Int64} (issued : Issued next id) (grows : next ≤ next') :
    Issued next' id := by
  obtain ⟨n, positive, below, small, same⟩ := issued
  exact ⟨n, positive, by omega, small, same⟩

theorem Issued.parse {next : Nat} {id : Int64} (issued : Issued next id) :
    parseI64 id.toUInt64.toNat = some id := by
  obtain ⟨n, _, _, small, rfl⟩ := issued
  have shown : (Int64.ofNat n).toUInt64.toNat = n := by
    rw [Int64.toUInt64_ofNat', UInt64.toNat_ofNat', Nat.mod_eq_of_lt (by omega)]
  rw [shown, parseI64, if_pos small]

structure Indexed (events : List Event) (db : Database Sig) : Prop where
  ascending : db.votes.Pairwise fun r r' => r.id < r'.id
  issued : ∀ r ∈ db.votes, Issued db.nextVoteId r.id
  fresh : 0 < db.nextVoteId
  rows : ∀ id, Unfinished id events →
    (db.votesOf id).map VoteRow.toVoteColumns = (voteEvents events id).map voteColumns

namespace Indexed

variable {events : List Event} {tx tx' : OpenTx Sig}

theorem empty : Indexed [] (Database.empty Sig) where
  ascending := .nil
  issued := by simp [Database.empty]
  fresh := Nat.one_pos
  rows _ _ := rfl

theorem burn {db : Database Sig} (indexed : Indexed events db) (burned : Nat) :
    Indexed events { db with nextVoteId := db.nextVoteId + burned } where
  ascending := indexed.ascending
  issued r member := (indexed.issued r member).mono (Nat.le_add_right _ _)
  fresh := Nat.add_pos_left indexed.fresh burned
  rows := indexed.rows

theorem createPoll (indexed : Indexed events tx.db) (e : CreatePollEvent) :
    Indexed (events ++ [.createPoll e]) (onCreatePoll tx e).db where
  ascending := indexed.ascending
  issued := indexed.issued
  fresh := indexed.fresh
  rows id unfinished := by
    have same : voteEvents (events ++ [.createPoll e]) id = voteEvents events id := by
      rw [voteEvents_snoc, show voteEvent id (.createPoll e) = [] from rfl, List.append_nil]
    rw [same]
    exact indexed.rows id (Unfinished.append.1 unfinished).1

theorem votesOf_finishTally {e : FinishTallyEvent} {id : UInt64} (other : e.pollId ≠ id) :
    (onFinishTally tx e).db.votesOf id = tx.db.votesOf id := by
  rw [Database.votesOf, onFinishTally, List.filter_filter]
  apply List.filter_congr
  intro r _
  by_cases own : r.pollId = id.toInt64
  · have kept : id.toInt64 ≠ e.pollId.toInt64 := fun same => other (toInt64_inj.1 same).symm
    simp [own, kept]
  · simp [own]

theorem finishTally (indexed : Indexed events tx.db) (e : FinishTallyEvent) :
    Indexed (events ++ [.finishTally e]) (onFinishTally tx e).db where
  ascending := indexed.ascending.filter _
  issued r member := indexed.issued r (List.mem_of_mem_filter member)
  fresh := indexed.fresh
  rows id unfinished := by
    obtain ⟨before, now⟩ := Unfinished.append.1 unfinished
    have same : voteEvents (events ++ [.finishTally e]) id = voteEvents events id := by
      rw [voteEvents_snoc, show voteEvent id (.finishTally e) = [] from rfl, List.append_nil]
    rw [same, votesOf_finishTally (now e (by simp))]
    exact indexed.rows id before

theorem onVote_eq_some {e : VoteEvent} (done : onVote tx e = some tx') : tx.db.nextVoteId < 2 ^ 63 ∧
    tx'.db.votes = tx.db.votes ++ [{ voteColumns e with id := Int64.ofNat tx.db.nextVoteId }] ∧
    tx'.db.nextVoteId = tx.db.nextVoteId + 1 := by
  unfold onVote at done
  split at done
  case isTrue inserted =>
    cases done
    rw [Bool.and_eq_true] at inserted
    exact ⟨of_decide_eq_true inserted.2, rfl, rfl⟩
  case isFalse => cases done

theorem votesOf_onVote {e : VoteEvent} (done : onVote tx e = some tx') (id : UInt64) :
    tx'.db.votesOf id = tx.db.votesOf id ++
      (voteEvent id (.vote e)).map fun e => { voteColumns e with id := Int64.ofNat tx.db.nextVoteId } := by
  obtain ⟨_, votes, _⟩ := onVote_eq_some done
  rw [Database.votesOf, votes, List.filter_append, voteEvent]
  by_cases own : e.pollId = id
  · simp [own, voteColumns, Database.votesOf]
  · simp [own, voteColumns, Database.votesOf, toInt64_inj]

theorem vote {e : VoteEvent} (indexed : Indexed events tx.db) (done : onVote tx e = some tx') :
    Indexed (events ++ [.vote e]) tx'.db := by
  obtain ⟨small, votes, next⟩ := onVote_eq_some done
  refine ⟨?_, ?_, by omega, ?_⟩
  · rw [votes, List.pairwise_append]
    refine ⟨indexed.ascending, List.pairwise_singleton _ _, fun r member r' last => ?_⟩
    obtain ⟨n, _, below, inside, same⟩ := indexed.issued r member
    rw [List.mem_singleton.1 last, same]
    exact (ofNat_lt inside small).2 below
  · intro r member
    rw [votes, List.mem_append, List.mem_singleton] at member
    rcases member with old | rfl
    · exact (indexed.issued r old).mono (by omega)
    · exact ⟨_, indexed.fresh, by omega, small, rfl⟩
  · intro id unfinished
    have before := indexed.rows id (Unfinished.append.1 unfinished).1
    rw [votesOf_onVote done, voteEvents_snoc, List.map_append, List.map_append, before, List.map_map]
    rfl

theorem event {e : Event} (indexed : Indexed events tx.db) (done : onEvent tx e = some tx') :
    Indexed (events ++ [e]) tx'.db := by
  cases e with
  | createPoll e =>
      cases done
      exact indexed.createPoll e
  | finishTally e =>
      cases done
      exact indexed.finishTally e
  | vote e => exact indexed.vote done

theorem bunch {bunch : List Event} (indexed : Indexed events tx.db)
    (done : bunch.foldlM onEvent tx = some tx') : Indexed (events ++ bunch) tx'.db := by
  induction bunch generalizing events tx with
  | nil =>
      cases done
      rwa [List.append_nil]
  | cons e bunch ih =>
      rw [List.foldlM_cons, Option.bind_eq_bind, Option.bind_eq_some_iff] at done
      obtain ⟨mid, first, rest⟩ := done
      simpa using ih (indexed.event first) rest

theorem grows {e : Event} {id : UInt64} (done : onEvent tx e = some tx') (unfinished : Unfinished id [e]) :
    tx.db.votesOf id <+: tx'.db.votesOf id := by
  cases e with
  | createPoll e =>
      cases done
      exact List.prefix_refl _
  | finishTally e =>
      cases done
      rw [votesOf_finishTally (unfinished e (by simp))]
  | vote e =>
      rw [votesOf_onVote done]
      exact List.prefix_append _ _

theorem grows_all {bunch : List Event} {id : UInt64} (done : bunch.foldlM onEvent tx = some tx')
    (unfinished : Unfinished id bunch) : tx.db.votesOf id <+: tx'.db.votesOf id := by
  induction bunch generalizing tx with
  | nil =>
      cases done
      exact List.prefix_refl _
  | cons e bunch ih =>
      rw [List.foldlM_cons, Option.bind_eq_bind, Option.bind_eq_some_iff] at done
      obtain ⟨mid, first, rest⟩ := done
      obtain ⟨now, later⟩ := Unfinished.append.1 (show Unfinished id ([e] ++ bunch) from unfinished)
      exact (grows first now).trans (ih rest later)

end Indexed

theorem executeTx_eq_some {db : Database Sig} {signature : Sig} {bunch : List Event} {tx : OpenTx Sig}
    (done : executeTx db signature bunch = some tx) :
    ∃ tx₀, bunch.foldlM onEvent { db, censusCmds := [], descriptionCmds := [] } = some tx₀ ∧
      tx = upsertCursor tx₀ signature := by
  rw [executeTx, Option.bind_eq_bind, Option.bind_eq_some_iff] at done
  obtain ⟨tx₀, folded, same⟩ := done
  exact ⟨tx₀, folded, (Option.some.inj same).symm⟩

end database

section pages

variable {Sig : Type} {events : List Event} {db : Database Sig}

theorem Indexed.votesById (indexed : Indexed events db) (id : UInt64) :
    db.votesById id.toInt64 = db.votesOf id := by
  apply List.Pairwise.insertionSort_eq
  apply (indexed.ascending.filter _).imp
  intro r r' below
  rw [Int64.lt_iff_toInt_lt] at below
  rw [Int64.le_iff_toInt_le]
  omega

def Client.Saw (c : Client) (votes seen : List VoteRow) : Prop :=
  seen <+: votes ∧ c.items = seen.map voteOut ∧ c.processedAfterId = seen.getLast?.map (·.id.toUInt64)

theorem Client.Saw.mono {c : Client} {votes votes' seen : List VoteRow} (saw : c.Saw votes seen)
    (grows : votes <+: votes') : c.Saw votes' seen :=
  ⟨saw.1.trans grows, saw.2⟩

theorem after_seen {seen rest : List VoteRow} {last : VoteRow}
    (ascending : ((seen ++ [last]) ++ rest).Pairwise fun r r' => r.id < r'.id) :
    ((seen ++ [last]) ++ rest).filter (fun r => last.id < r.id) = rest := by
  rw [List.append_assoc, List.pairwise_append, List.singleton_append, List.pairwise_cons] at ascending
  obtain ⟨_, ⟨later, _⟩, earlier⟩ := ascending
  have none : (seen ++ [last]).filter (fun r => decide (last.id < r.id)) = [] := by
    apply List.filter_eq_nil_iff.2
    intro r member
    rw [decide_eq_true_eq, Int64.lt_iff_toInt_lt]
    rcases List.mem_append.1 member with old | same
    · have below := Int64.lt_iff_toInt_lt.1 (earlier r old last (by simp))
      omega
    · rw [List.mem_singleton.1 same]
      omega
  have all : rest.filter (fun r => decide (last.id < r.id)) = rest :=
    List.filter_eq_self.2 fun r member => decide_eq_true (later r member)
  rw [List.filter_append, none, all, List.nil_append]

theorem Indexed.after {id : UInt64} {c : Client} {seen : List VoteRow} {limit : Option Int64}
    {query : VotesQuery}
    (indexed : Indexed events db) (saw : c.Saw (db.votesOf id) seen) (asked : c.query limit = some query) :
    ∃ rest, db.votesOf id = seen ++ rest ∧ query.limit = limit ∧
      (db.votesById id.toInt64).filter (fun r => query.after.getD 0 < r.id) = rest := by
  obtain ⟨⟨rest, split⟩, _, last⟩ := saw
  refine ⟨rest, split.symm, ?_⟩
  rw [indexed.votesById, ← split]
  have issued : ∀ r ∈ seen ++ rest, Issued db.nextVoteId r.id := fun r member =>
    indexed.issued r (List.mem_of_mem_filter (split ▸ member))
  cases seen using List.reverseRecOn with
  | nil =>
      rw [Client.query, last] at asked
      cases asked
      refine ⟨rfl, List.filter_eq_self.2 fun r member => decide_eq_true ?_⟩
      obtain ⟨n, positive, _, small, same⟩ := issued r member
      rw [same]
      exact (ofNat_lt (Nat.two_pow_pos 63) small).2 positive
  | append_singleton seen r =>
      rw [Client.query, last, List.getLast?_concat, Option.map_some] at asked
      change (parseI64 r.id.toUInt64.toNat).map _ = _ at asked
      rw [(issued r (by simp)).parse] at asked
      cases asked
      refine ⟨rfl, after_seen ?_⟩
      rw [split]
      exact indexed.ascending.filter _

theorem Client.Saw.add {id : UInt64} {c : Client} {seen : List VoteRow} {limit : Option Int64}
    {query : VotesQuery}
    (saw : c.Saw (db.votesOf id) seen) (indexed : Indexed events db) (counted : Database Sig)
    (asked : c.query limit = some query) :
    ∃ seen', (c.add (listVotes counted db id.toInt64 query)).Saw (db.votesOf id) seen' := by
  obtain ⟨rest, split, _, found⟩ := indexed.after saw asked
  obtain ⟨_, items, last⟩ := saw
  obtain ⟨n, page⟩ : ∃ n, (listVotes counted db id.toInt64 query).items = (rest.take n).map voteOut := by
    simp only [listVotes, Database.selectVotes, found, List.take_take]
    exact ⟨_, rfl⟩
  refine ⟨seen ++ rest.take n, ?_, ?_, ?_⟩
  · rw [split]
    exact (List.prefix_append_right_inj seen).2 (List.take_prefix n rest)
  · rw [Client.add, items, page, List.map_append]
  · rw [Client.add, page, last, List.getLast?_map, List.getLast?_append, Option.map_map]
    cases (rest.take n).getLast? <;> rfl

end pages

section runs

variable {Sig : Type} {deserialize : Line → Option Event} {programId : Line}
variable {emitted : Tx Sig Meta → List Event} {chain : List (Tx Sig Meta)} {pollId : UInt64}

def bunches (deserialize : Line → Option Event) (programId : Line) (txs : List (Tx Sig Meta)) :
    List (Sig × List Event) :=
  txs.filterMap (processTx deserialize programId)

theorem LogsRead.silent {tx : Tx Sig Meta} (reads : LogsRead deserialize programId emitted tx)
    (silent : processTx deserialize programId tx = none) : emitted tx = [] := by
  cases failed : tx.content.err with
  | true => exact reads.failed failed
  | false =>
      obtain ⟨logs, complete, parsed⟩ := reads.parsed failed
      simpa [processTx, failed, complete, parsed] using silent

theorem LogsRead.bunch {tx : Tx Sig Meta} {bunch : Sig × List Event}
    (reads : LogsRead deserialize programId emitted tx)
    (made : processTx deserialize programId tx = some bunch) : bunch = (tx.signature, emitted tx) := by
  cases failed : tx.content.err with
  | true => simp [processTx, failed] at made
  | false =>
      obtain ⟨logs, complete, parsed⟩ := reads.parsed failed
      simp only [processTx, failed, complete, parsed, Bool.false_eq_true, if_false] at made
      split at made
      · cases made
      · exact (Option.some.inj made).symm

variable [DecidableEq Sig]

/-- The chain splits into what the database has and what the tasks still carry. -/
structure Consistent (deserialize : Line → Option Event) (programId : Line)
    (emitted : Tx Sig Meta → List Event)
    (chain : List (Tx Sig Meta)) (pollId : UInt64) (s : System Sig)
    (done later : List (Tx Sig Meta)) : Prop where
  split : chain = done ++ later
  resumes : newerThan Tx.signature s.db.lastSig chain = later
  queued : s.taken.toList ++ s.events ++ bunches deserialize programId s.logs ++
    bunches deserialize programId s.unread = bunches deserialize programId later
  indexed : Indexed (done.flatMap emitted) s.db
  saw : Unfinished pollId (done.flatMap emitted) → ∃ seen, s.client.Saw (s.db.votesOf pollId) seen

theorem Consistent.commit {s : System Sig} {done later : List (Tx Sig Meta)} {bunch : Sig × List Event}
    {tx : OpenTx Sig}
    (reads : ∀ tx ∈ chain, LogsRead deserialize programId emitted tx)
    (distinct : (chain.map Tx.signature).Nodup)
    (consistent : Consistent deserialize programId emitted chain pollId s done later)
    (taken : s.taken = some bunch) (executed : executeTx s.db bunch.1 bunch.2 = some tx) :
    ∃ done' later', Consistent deserialize programId emitted chain pollId
    { s with db := tx.db, taken := none } done' later' := by
  have queued := consistent.queued
  rw [taken, Option.toList_some, List.singleton_append, List.cons_append, List.cons_append] at queued
  obtain ⟨skipped, next, rest, parts, silent, made, more⟩ := List.filterMap_eq_cons_iff.1 queued.symm
  have split : chain = (done ++ skipped) ++ next :: rest := by rw [consistent.split, parts, List.append_assoc]
  have readsAll : ∀ tx ∈ skipped ++ next :: rest, LogsRead deserialize programId emitted tx :=
    fun tx member =>
    reads tx (by rw [consistent.split, parts]; exact List.mem_append_right _ member)
  have quiet : skipped.flatMap emitted = [] := List.flatMap_eq_nil_iff.2 fun tx member =>
    (readsAll tx (List.mem_append_left _ member)).silent (silent tx member)
  have own := (readsAll next (by simp)).bunch made
  have emits : ((done ++ skipped) ++ [next]).flatMap emitted = done.flatMap emitted ++ bunch.2 := by
    rw [List.flatMap_append, List.flatMap_append, quiet, List.append_nil, List.flatMap_singleton, own]
  obtain ⟨tx₀, folded, rfl⟩ := executeTx_eq_some executed
  refine ⟨(done ++ skipped) ++ [next], rest, ?_, ?_, ?_, ?_, ?_⟩
  · rw [split, List.append_assoc (done ++ skipped), List.singleton_append]
  · rw [split]
    rw [split, List.map_append, List.nodup_append] at distinct
    refine newerThan_cut (by rw [own]) fun x member => ?_
    rw [own]
    exact distinct.2.2 _ (List.mem_map_of_mem member) _ (by simp)
  · exact more.symm
  · rw [emits]
    have indexed := Indexed.bunch consistent.indexed folded
    exact ⟨indexed.ascending, indexed.issued, indexed.fresh, indexed.rows⟩
  · rw [emits]
    intro unfinished
    obtain ⟨before, now⟩ := Unfinished.append.1 unfinished
    obtain ⟨seen, saw⟩ := consistent.saw before
    exact ⟨seen, saw.mono (Indexed.grows_all folded now)⟩

theorem Consistent.step {s s' : System Sig} {done later : List (Tx Sig Meta)} {act : Act}
    (reads : ∀ tx ∈ chain, LogsRead deserialize programId emitted tx)
    (distinct : (chain.map Tx.signature).Nodup)
    (consistent : Consistent deserialize programId emitted chain pollId s done later)
    (step : System.Step deserialize programId chain pollId s act s') :
    ∃ done' later', Consistent deserialize programId emitted chain pollId s' done' later' := by
  obtain ⟨split, resumes, queued, indexed, saw⟩ := id consistent
  cases step with
  | @deliver tx rest unread =>
      refine ⟨done, later, split, resumes, ?_, indexed, saw⟩
      rw [← queued, unread]
      simp only [bunches, List.append_assoc, ← List.filterMap_append, List.singleton_append]
  | @process tx rest logs =>
      refine ⟨done, later, split, resumes, ?_, indexed, saw⟩
      rw [← queued, logs]
      cases made : processTx deserialize programId tx <;> simp [bunches, made]
  | @take bunch rest idle waiting =>
      refine ⟨done, later, split, resumes, ?_, indexed, saw⟩
      rw [← queued, idle, waiting]
      simp
  | commit taken executed => exact consistent.commit reads distinct taken executed
  | crash burned => exact ⟨done, later, split, resumes,
    congrArg (bunches deserialize programId) resumes, indexed.burn burned, saw⟩
  | fetch counted asked =>
      refine ⟨done, later, split, resumes, queued, indexed, fun unfinished => ?_⟩
      obtain ⟨seen, saw⟩ := saw unfinished
      exact saw.add indexed counted asked

theorem Consistent.of_run {s : System Sig} {acts : List Act}
    (reads : ∀ tx ∈ chain, LogsRead deserialize programId emitted tx)
    (distinct : (chain.map Tx.signature).Nodup)
    (run : Steps (System.Step deserialize programId chain pollId) (.start chain) acts s) :
    ∃ done later, Consistent deserialize programId emitted chain pollId s done later := by
  refine run.invariant (I := fun _ s => ∃ done later,
    Consistent deserialize programId emitted chain pollId s done later) ?_ ?_
  · exact ⟨[], chain, rfl, rfl, rfl, .empty, fun _ => ⟨[], List.prefix_refl _, rfl, rfl⟩⟩
  · rintro _ s act s' _ ⟨done, later, consistent⟩ step
    exact consistent.step reads distinct step

theorem readVote_columns {row : VoteRow} {e : VoteEvent} (same : row.toVoteColumns = voteColumns e) :
    readVote (voteOut row) = some (numbers e.message) := by
  rw [← readVote_voteOut e row.id, ← same]

theorem readVote_all {rows : List VoteRow} {events : List VoteEvent}
    (same : rows.map VoteRow.toVoteColumns = events.map voteColumns) :
    (rows.map voteOut).mapM readVote = some (events.map fun e => numbers e.message) := by
  induction rows generalizing events with
  | nil =>
      cases events with
      | nil => rfl
      | cons => cases same
  | cons row rows ih =>
      cases events with
      | nil => cases same
      | cons e events =>
          obtain ⟨first, rest⟩ := List.cons.inj same
          rw [List.map_cons, List.mapM_cons, readVote_columns first, Option.bind_eq_bind,
            Option.bind_some, ih rest]
          rfl

/-- The rows of an unfinished poll are its votes in the indexed part of the chain, and a client reads the
first of them, which hash to the digest that the poll had after them. -/
theorem indexed_votes {s : System Sig} {acts : List Act}
    (reads : ∀ tx ∈ chain, LogsRead deserialize programId emitted tx)
    (distinct : (chain.map Tx.signature).Nodup)
    (run : Steps (System.Step deserialize programId chain pollId) (.start chain) acts s) :
    ∃ done, done <+: chain ∧
      (∀ id, Unfinished id (done.flatMap emitted) →
        (s.db.votesById id.toInt64).map VoteRow.toVoteColumns =
          (voteEvents (done.flatMap emitted) id).map voteColumns) ∧
      (Unfinished pollId (done.flatMap emitted) →
        ∃ seen, seen <+: voteEvents (done.flatMap emitted) pollId ∧
          s.client.items.mapM readVote = some (seen.map fun e => numbers e.message) ∧
          ∀ (H : IdealHash Fr) (env : Env) (clock : UInt64) (lamports : Address → Nat) (es : List Applied)
            (l : Program.Ledger), Steps (Program.Step H env) (genesis clock lamports) es l →
            l.events = chain.flatMap emitted →
            ∃ es₁ l₁ digest, es₁ <+: es ∧ Steps (Program.Step H env) (genesis clock lamports) es₁ l₁ ∧
              voteEvents l₁.events pollId = seen ∧
              runningMsgHash H 0 (seen.map fun e => numbers e.message) = some digest ∧
              Word.ofFr digest = l₁.records.digest pollId) := by
  obtain ⟨done, later, consistent⟩ := Consistent.of_run reads distinct run
  have indexed := consistent.indexed
  have inside : done <+: chain := ⟨later, consistent.split.symm⟩
  refine ⟨done, inside, ?_, ?_⟩
  · intro id unfinished
    rw [indexed.votesById, indexed.rows id unfinished]
  · intro unfinished
    obtain ⟨shown, first, items, _⟩ := consistent.saw unfinished
    have mapped := first.map VoteRow.toVoteColumns
    rw [indexed.rows pollId unfinished] at mapped
    obtain ⟨seen, isFirst, columns⟩ := List.prefix_map_iff.1 mapped
    refine ⟨seen, isFirst, by rw [items, readVote_all columns],
      fun H env clock lamports es l program logged => ?_⟩
    have onChain : seen <+: voteEvents l.events pollId := by
      rw [logged, voteEvents]
      exact isFirst.trans ((inside.flatMap emitted).flatMap (voteEvent pollId))
    obtain ⟨es₁, l₁, before, reached, votes⟩ := run_to_votes program onChain
    have records := Logged.of_run reached
    obtain ⟨ms, digest, encoded, absorbed, same⟩ := records.absorbs pollId
    rw [← records.messages, show l₁.records.events = l₁.events from rfl, votes] at encoded
    refine ⟨es₁, l₁, digest, before, reached, votes, ?_, same⟩
    rw [← runningMsgHash_absorbs encoded absorbed, List.map_map]
    rfl

end runs

namespace LostQueue

open ForgedFrame (one mootvote)

def ledger : Outcome Program.Ledger := OneVoter.outcome (OneVoter.setup ++ [OneVoter.cast 5])

def history : List Event :=
  match ledger with
  | .error _ => []
  | .ok l => l.events

def deserialize (payload : Line) : Option Event := if payload = ['a'] then history[0]? else history[1]?

def frames (c : Char) : Frames := .frame mootvote one (.line (.data [c]) .nil) .nil

def tx (signature : Nat) (c : Char) : Tx Nat Meta :=
  { signature, content := { err := false, logMessages := some (frames c).render }, slot := 0 }

def chain : List (Tx Nat Meta) := [tx 1 'a', tx 2 'b']

def emitted (t : Tx Nat Meta) : List Event :=
  (frames (if t.signature = 1 then 'a' else 'b')).events deserialize mootvote.chars

theorem reads : ∀ t ∈ chain, LogsRead deserialize mootvote.chars emitted t := by
  intro t member
  have cases : t = tx 1 'a' ∨ t = tx 2 'b' := by simpa [chain] using member
  rcases cases with rfl | rfl
  · exact ⟨nofun, fun _ => ⟨_, rfl, parseLogs_frames (frames 'a')⟩⟩
  · exact ⟨nofun, fun _ => ⟨_, rfl, parseLogs_frames (frames 'b')⟩⟩

theorem emits : emitted (tx 1 'a') = history[0]?.toList ∧ emitted (tx 2 'b') = history[1]?.toList := by
  simp [emitted, frames, Frames.events, Body.events, BodyLine.event, deserialize, tx]

theorem logged : ∃ es l, Steps (Program.Step DoubleCount.hash OneVoter.env)
    (genesis 0 OneVoter.lamports) es l ∧
    l.events = chain.flatMap emitted := by
  have two : history.length = 2 := by decide +kernel
  have all : history[0]?.toList ++ history[1]?.toList = history := by
    match history, two with
    | [_, _], _ => rfl
  have events : chain.flatMap emitted = history := by
    rw [chain, List.flatMap_cons, List.flatMap_cons, List.flatMap_nil, List.append_nil, emits.1, emits.2, all]
  rw [events]
  unfold history at two ⊢
  cases done : ledger with
  | error =>
      rw [done] at two
      cases two
  | ok l =>
      obtain ⟨es, run, _⟩ := replay_steps done
      exact ⟨es, l, run, rfl⟩

def acts : List Act :=
  [.deliver, .process, .take, .commit, .deliver, .process, .crash 3, .deliver, .process, .take,
    .commit, .fetch none]

def insert (db : Database Nat) (t : Tx Nat Meta) : Option (OpenTx Nat) := executeTx db t.signature (emitted t)

def burn (db : Database Nat) : Database Nat := { db with nextVoteId := db.nextVoteId + 3 }

theorem inserts : ∃ tx₁ tx₂, insert (.empty Nat) (tx 1 'a') = some tx₁ ∧ insert (burn tx₁.db)
    (tx 2 'b') = some tx₂ ∧
    (listVotes tx₂.db tx₂.db 7 { limit := none, after := none }).items.length = 1 := by
  have computed : (do
      let tx₁ ← insert (.empty Nat) (tx 1 'a')
      let tx₂ ← insert (burn tx₁.db) (tx 2 'b')
      return (listVotes tx₂.db tx₂.db 7 { limit := none, after := none }).items.length) = some 1 := by
    decide +kernel
  obtain ⟨tx₁, first, rest⟩ := Option.bind_eq_some_iff.1 computed
  obtain ⟨tx₂, second, one⟩ := Option.bind_eq_some_iff.1 rest
  exact ⟨tx₁, tx₂, first, second, Option.some.inj one⟩

theorem bunch_eq : processTx deserialize mootvote.chars (tx 1 'a') = some (1, emitted (tx 1 'a')) ∧
    processTx deserialize mootvote.chars (tx 2 'b') = some (2, emitted (tx 2 'b')) := by
  have filled : (emitted (tx 1 'a')).isEmpty = false ∧
    (emitted (tx 2 'b')).isEmpty = false := by decide +kernel
  have made (t : Tx Nat Meta) (member : t ∈ chain) (filled : (emitted t).isEmpty = false) :
      processTx deserialize mootvote.chars t = some (t.signature, emitted t) := by
    cases made : processTx deserialize mootvote.chars t with
    | none =>
        rw [(reads t member).silent made] at filled
        cases filled
    | some => rw [(reads t member).bunch made]
  exact ⟨made _ (by simp [chain]) filled.1, made _ (by simp [chain]) filled.2⟩

theorem run : ∃ s, Steps (System.Step deserialize mootvote.chars chain 7) (.start chain) acts s ∧
    s.client.items.length = 1 := by
  obtain ⟨tx₁, tx₂, first, second, one⟩ := inserts
  obtain ⟨tx₀, _, rfl⟩ := executeTx_eq_some first
  refine ⟨_, .cons (.deliver rfl) <| .cons (.process rfl) <| .cons
    (.take rfl (?_ : _ = (1, emitted (tx 1 'a')) :: [])) <|
    .cons (.commit rfl first) <| .cons (.deliver rfl) <| .cons (.process rfl) <| .cons (.crash 3) <|
    .cons (.deliver rfl) <| .cons (.process rfl) <| .cons
      (.take rfl (?_ : _ = (2, emitted (tx 2 'b')) :: [])) <|
    .cons (.commit rfl second) <| .cons (.fetch tx₂.db rfl) (.nil _), one⟩
  · exact congrArg Option.toList bunch_eq.1
  · exact congrArg Option.toList bunch_eq.2

theorem indexed_votes_after_crash : ∃ (s : System Nat) (seen : List VoteEvent) (l₁ : Program.Ledger)
    (digest : Fr),
    Steps (System.Step deserialize mootvote.chars chain 7) (.start chain) acts s ∧ s.client.items.length = 1 ∧
    s.client.items.mapM readVote = some (seen.map fun e => numbers e.message) ∧
    voteEvents l₁.events 7 = seen ∧
    runningMsgHash DoubleCount.hash 0 (seen.map fun e => numbers e.message) = some digest ∧
    Word.ofFr digest = l₁.records.digest 7 := by
  obtain ⟨s, reached, one⟩ := run
  obtain ⟨es, l, program, events⟩ := logged
  obtain ⟨done, inside, _, votes⟩ := indexed_votes reads (by decide) reached
  have unfinished : Unfinished 7 (done.flatMap emitted) := by
    have none : (chain.flatMap emitted).all (fun e => e matches .createPoll _ | .vote _) = true := by
      decide +kernel
    intro e member
    exact absurd (List.all_eq_true.1 none _ ((inside.flatMap emitted).subset member)) nofun
  obtain ⟨seen, _, shown, digests⟩ := votes unfinished
  obtain ⟨_, l₁, digest, _, _, same, hashed, recorded⟩ := digests _ _ _ _ es l program events
  exact ⟨s, seen, l₁, digest, reached, one, shown, same, hashed, recorded⟩

end LostQueue

end Mootvote.Indexer
