import Mathlib.Data.List.Sort
import Mootvote.Indexer.ParseLogs
import Mootvote.Indexer.SolanaReader
import Mootvote.Program.State
import Mootvote.Shared.Hex
import Mootvote.Smt.Node

set_option autoImplicit false

namespace Mootvote.Indexer

open Shared Program

section eventProcessor

structure Meta where
  err : Bool
  logMessages : Option (List Line)

variable {Sig : Type} (deserialize : Line → Option Event) (programId : Line)

/-- What `EventProcessor::execute` sends on for a transaction. -/
def processTx (tx : Tx Sig Meta) : Option (Sig × List Event) :=
  if tx.content.err then none
  else
    match tx.content.logMessages with
    | none => none
    | some logs =>
        match parseLogs deserialize programId logs with
        | .error _ => none
        | .ok events => if events.isEmpty then none else some (tx.signature, events)

end eventProcessor

section tables

structure PollRow where
  pollId : Int64
  expectedNChoices : Int16
  censusRoot : List UInt8
  tallierX : List UInt8
  tallierY : List UInt8
  votingStartTime : Int64
  votingEndTime : Int64
  fee : Int64
  platformFee : Int64
  expectedNVoters : Int64
  feeDestination : Address
  descriptionUrl : String
  censusUrl : String
  tally : Option (List Int64)

structure VoteColumns where
  pollId : Int64
  ephX : List UInt8
  ephY : List UInt8
  nonce : Int64
  ciphertext : List UInt8

structure VoteRow extends VoteColumns where
  id : Int64

structure Database (Sig : Type) where
  lastSig : Option Sig
  polls : List PollRow
  votes : List VoteRow
  nextVoteId : Nat

structure CensusCmd where
  pollId : Int64
  url : String
  expectedNVoters : UInt64

structure DescriptionCmd where
  pollId : Int64
  url : String
  expectedNChoices : UInt8

/-- An open transaction with the commands that follow its commit. -/
structure OpenTx (Sig : Type) where
  db : Database Sig
  censusCmds : List CensusCmd
  descriptionCmds : List DescriptionCmd

def Database.empty (Sig : Type) : Database Sig where
  lastSig := none
  polls := []
  votes := []
  nextVoteId := 1

end tables

section dbManager

variable {Sig : Type}

def pollRow (e : CreatePollEvent) : PollRow where
  pollId := e.pollId.toInt64
  expectedNChoices := e.nChoices.toUInt16.toInt16
  censusRoot := e.censusRoot.bytes
  tallierX := e.tallierKey.x.bytes
  tallierY := e.tallierKey.y.bytes
  votingStartTime := e.votingStartTime.toInt64
  votingEndTime := e.votingEndTime.toInt64
  fee := e.fee.toInt64
  platformFee := e.platformFee.toInt64
  expectedNVoters := e.nVoters.toInt64
  feeDestination := e.feeDestination
  descriptionUrl := e.descriptionUrl
  censusUrl := e.censusUrl
  tally := none

def onCreatePoll (tx : OpenTx Sig) (e : CreatePollEvent) : OpenTx Sig :=
  let polls :=
    if tx.db.polls.any fun poll => poll.pollId == e.pollId.toInt64 then tx.db.polls
    else tx.db.polls ++ [pollRow e]
  -- The commands are sent also for a poll that is there already.
  { db := { tx.db with polls }
    censusCmds := tx.censusCmds ++
      [{ pollId := e.pollId.toInt64, url := e.censusUrl, expectedNVoters := e.nVoters }]
    descriptionCmds := tx.descriptionCmds ++
      [{ pollId := e.pollId.toInt64, url := e.descriptionUrl, expectedNChoices := e.nChoices }] }

def voteColumns (e : VoteEvent) : VoteColumns where
  pollId := e.pollId.toInt64
  ephX := e.message.ephPk.x.bytes
  ephY := e.message.ephPk.y.bytes
  nonce := e.message.nonce.toInt64
  ciphertext := (List.ofFn e.message.ciphertext).flatMap Word.bytes

-- The insert fails where the poll is missing and where the sequence has run out.
def onVote (tx : OpenTx Sig) (e : VoteEvent) : Option (OpenTx Sig) :=
  if (tx.db.polls.any fun poll => poll.pollId == e.pollId.toInt64) && tx.db.nextVoteId < 2 ^ 63 then
    some { tx with
      db := { tx.db with
        votes := tx.db.votes ++ [{ voteColumns e with id := Int64.ofNat tx.db.nextVoteId }]
        nextVoteId := tx.db.nextVoteId + 1 } }
  else none

def onFinishTally (tx : OpenTx Sig) (e : FinishTallyEvent) : OpenTx Sig :=
  { tx with
    db := { tx.db with
      polls := tx.db.polls.map fun poll =>
        if poll.pollId = e.pollId.toInt64 then { poll with tally := some (e.tally.map UInt64.toInt64) }
        else poll
      votes := tx.db.votes.filter fun vote => vote.pollId ≠ e.pollId.toInt64 } }

def onEvent (tx : OpenTx Sig) : Event → Option (OpenTx Sig)
  | .createPoll e => some (onCreatePoll tx e)
  | .vote e => onVote tx e
  | .finishTally e => some (onFinishTally tx e)

def upsertCursor (tx : OpenTx Sig) (lastSig : Sig) : OpenTx Sig :=
  { tx with db := { tx.db with lastSig := some lastSig } }

/-- One turn of the loop in `DbManager::execute`, up to the commit. -/
def executeTx (db : Database Sig) (signature : Sig) (events : List Event) : Option (OpenTx Sig) := do
  let tx ← events.foldlM onEvent { db, censusCmds := [], descriptionCmds := [] }
  return upsertCursor tx signature

end dbManager

section server

structure VoteOut where
  id : UInt64
  ephX : List Char
  ephY : List Char
  nonce : UInt64
  ciphertext : List Char

def voteOut (r : VoteRow) : VoteOut where
  id := r.id.toUInt64
  ephX := hexEncode r.ephX
  ephY := hexEncode r.ephY
  nonce := r.nonce.toUInt64
  ciphertext := hexEncode r.ciphertext

structure VotesQuery where
  limit : Option Int64
  after : Option Int64

structure Page where
  items : List VoteOut
  total : UInt64

def clamp (x low high : Int64) : Int64 := if x < low then low else if high < x then high else x

variable {Sig : Type}

def Database.votesById (db : Database Sig) (pollId : Int64) : List VoteRow :=
  (db.votes.filter fun r => r.pollId = pollId).insertionSort fun r r' => r.id ≤ r'.id

def Database.selectVotes (db : Database Sig) (pollId afterId limit : Int64) : List VoteRow :=
  ((db.votesById pollId).filter fun r => afterId < r.id).take limit.toNatClampNeg

-- The two queries may find different states of the database.
def listVotes (counted db : Database Sig) (pollId : Int64) (query : VotesQuery) : Page :=
  let limit := clamp (query.limit.getD 100) 1 1000
  let afterId := query.after.getD 0
  let rows := db.selectVotes pollId afterId (limit + 1)
  { items := (rows.take limit.toNatClampNeg).map voteOut
    total := UInt64.ofNat (counted.votes.countP fun r => r.pollId = pollId) }

end server

end Mootvote.Indexer
