import Mootvote.Indexer.Db
import Mootvote.Shared.Steps

set_option autoImplicit false

namespace Mootvote.Indexer.CensusManager

open Shared Program

section ingest

/-- The answer to the request for a census, after `error_for_status`. -/
structure Response where
  contentLength : Option Nat
  chunks : List (List UInt8)
  /-- The stream fails after these chunks. -/
  broken : Bool

inductive Statement where
  | markBad (reason : String)
  | insertLeavesBatch (leaves : List Word)
  | setValid
deriving DecidableEq

structure Download where
  buf : List UInt8
  batch : List Word
  total : Nat

def notDivisible : Statement := .markBad "census size not divisible by 32"

def unexpected (expected total : Nat) : Statement :=
  .markBad ("expected " ++ toString expected ++ ", got " ++ toString total)

-- Neither check ends the attempt.
def checkLength (expected : Nat) : Option Nat → List Statement
  | none => []
  | some n =>
      (if n % 32 ≠ 0 then [notDivisible] else []) ++
        if n / 32 ≠ expected then [unexpected expected (n / 32)] else []

def takeLeaves (d : Download) : List Statement × Download :=
  if 32 ≤ d.buf.length then
    let batch := d.batch ++ [Word.ofBytes (d.buf.take 32)]
    let buf := d.buf.drop 32
    if 10000 ≤ batch.length then
      let (inserts, d') := takeLeaves { buf, batch := [], total := d.total + batch.length }
      (.insertLeavesBatch batch :: inserts, d')
    else takeLeaves { buf, batch, total := d.total }
  else ([], d)
termination_by d.buf.length
decreasing_by all_goals simp only [List.length_drop]; omega

def finish (expected : Nat) (d : Download) : List Statement :=
  if d.buf ≠ [] then [notDivisible]
  else
    let inserts := if d.batch = [] then [] else [.insertLeavesBatch d.batch]
    let total := d.total + d.batch.length
    inserts ++ if total ≠ expected then [unexpected expected total] else [.setValid]

def receive (expected : Nat) (broken : Bool) : Download → List (List UInt8) → List Statement
  | d, [] => if broken then [] else finish expected d
  | d, chunk :: chunks =>
      let buf := d.buf ++ chunk
      -- Leaves in the batch are not counted here.
      if expected < d.total + buf.length / 32 then [.markBad "too many voters"]
      else
        let (inserts, d') := takeLeaves { d with buf }
        inserts ++ receive expected broken d' chunks

/-- The statements of `ingest` after its query, in their order. -/
def ingest (cmd : CensusCmd) (resp : Response) : List Statement :=
  let expected := cmd.expectedNVoters.toNat
  checkLength expected resp.contentLength ++
    receive expected resp.broken { buf := [], batch := [], total := 0 } resp.chunks

end ingest

section database

structure PollCensus where
  poll : PollRow
  censusValid : Option Bool
  censusInvalidReason : Option String
  voters : List Word

def Statement.execute (c : PollCensus) : Statement → PollCensus
  | .markBad reason => { c with censusValid := some false, censusInvalidReason := some reason }
  | .insertLeavesBatch leaves => { c with voters := leaves ∪ c.voters }
  | .setValid => { c with censusValid := some true }

def enqueueUnfinished (c : PollCensus) : List CensusCmd :=
  if c.censusValid = some true then []
  else
    [{ pollId := c.poll.pollId, url := c.poll.censusUrl,
       expectedNVoters := c.poll.expectedNVoters.toUInt64 }]

def isVoter (c : PollCensus) (leaf : Word) : String := if leaf ∈ c.voters then "true" else "false"

end database

section system

structure Attempt where
  response : Response
  todo : List Statement

structure System where
  census : PollCensus
  queue : List CensusCmd
  attempts : Nat → Option Attempt

inductive Act where
  | event
  | start (i : Nat) (response : Response)
  | execute (i : Nat) (response : Response) (statement : Statement)
  | stop (i : Nat)
  | restart

def command (e : CreatePollEvent) : CensusCmd where
  pollId := e.pollId.toInt64
  url := e.censusUrl
  expectedNVoters := e.nVoters

def System.created (e : CreatePollEvent) : System where
  census := { poll := pollRow e, censusValid := none, censusInvalidReason := none, voters := [] }
  queue := []
  attempts _ := none

def begin (c : PollCensus) (cmd : CensusCmd) (response : Response) : Option Attempt :=
  if c.censusValid = some true then none else some { response, todo := ingest cmd response }

/-- Attempts run concurrently, one statement at a time, and may stop before any of them. -/
inductive System.Step (e : CreatePollEvent) : System → Act → System → Prop
  | event {s : System} : Step e s .event { s with queue := s.queue ++ [command e] }
  | start {s : System} {i : Nat} {cmd : CensusCmd} {earlier later : List CensusCmd} (response : Response)
      (unused : s.attempts i = none) (queued : s.queue = earlier ++ cmd :: later) :
      Step e s (.start i response)
        { s with
          queue := earlier ++ later
          attempts := Function.update s.attempts i (begin s.census cmd response) }
  | execute {s : System} {i : Nat} {response : Response} {statement : Statement} {todo : List Statement}
      (waits : s.attempts i = some { response, todo := statement :: todo }) :
      Step e s (.execute i response statement)
        { s with
          census := statement.execute s.census
          attempts := Function.update s.attempts i (some { response, todo }) }
  | stop {s : System} (i : Nat) : Step e s (.stop i) { s with attempts := Function.update s.attempts i none }
  | restart {s : System} :
      Step e s .restart { s with queue := enqueueUnfinished s.census, attempts := fun _ => none }

end system

end Mootvote.Indexer.CensusManager
