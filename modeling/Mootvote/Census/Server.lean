import Mathlib.Data.List.Sort
import Mootvote.Circom.Words
import Mootvote.Program.State
import Mootvote.Shared.Hex
import Mootvote.Shared.Steps
import Mootvote.Smt.Node

set_option autoImplicit false

namespace Mootvote.Census

open Shared

open Program (u64ToU256)

inductive Failure where
  | http (status : Nat) (message : String)
  | panic
deriving DecidableEq

abbrev Response (A : Type) := Except Failure A

section auth

structure HttpRequest where
  pubX : Option (List Char)
  pubY : Option (List Char)
  sigR8x : Option (List Char)
  sigR8y : Option (List Char)
  sigS : Option (List Char)
  ts : Option (List Char)

structure BjjActor where
  pubX : Word
  pubY : Word
deriving DecidableEq

structure Signature where
  rB8 : Fr × Fr
  s : Int
deriving DecidableEq

structure Env where
  /-- `Fr::from_str` of `ff_ce`. -/
  frFromStr : List Char → Option Fr
  bigIntFromStr : List Char → Option Int
  verify : Fr × Fr → Signature → Word → Bool
  poseidon : List Fr → Fr

def parseHex32 (s : List Char) : Option Word :=
  if s.length = 64 then (hexFold 0 s).map (BitVec.ofNat 256) else none

def parseU64 (s : List Char) : Option UInt64 :=
  let digits := if s.head? = some '+' then s.tail else s
  let value := digits.foldl (fun n c => n * 10 + (c.toNat - '0'.toNat)) 0
  if digits ≠ [] ∧ digits.all Char.isDigit ∧ value < 2 ^ 64 then some (UInt64.ofNat value) else none

def platformName : UInt64 := 5579801008792368229

def authDomain : UInt64 := 1635087464

-- `hash_bytes_be` refuses inputs that are not below the modulus.
def poseidonHash (env : Env) (inputs : List Word) : Response Word :=
  match Word.toFrs inputs with
  | none => .error .panic
  | some xs => .ok (Word.ofFr (env.poseidon xs))

def extractActor (req : HttpRequest) : Option BjjActor := do
  let pubX ← req.pubX.bind parseHex32
  let pubY ← req.pubY.bind parseHex32
  return { pubX, pubY }

def extractSig (env : Env) (req : HttpRequest) : Option Signature := do
  let r8x ← req.sigR8x
  let r8y ← req.sigR8y
  let s ← req.sigS
  let x ← env.frFromStr r8x
  let y ← env.frFromStr r8y
  let s ← env.bigIntFromStr s
  return { rB8 := (x, y), s }

def extractTimestamp (req : HttpRequest) : Option UInt64 := req.ts.bind parseU64

def badAuth : Failure := .http 401 "bad auth"

def orBadAuth {A : Type} (x : Option A) : Response A :=
  match x with
  | none => .error badAuth
  | some a => .ok a

-- The key enters the check as its residues; the bytes of the headers are what is returned.
def verifyBjj (env : Env) (now : UInt64) (req : HttpRequest) : Response BjjActor := do
  let actor ← orBadAuth (extractActor req)
  let ts ← orBadAuth (extractTimestamp req)
  let sig ← orBadAuth (extractSig env req)
  if 300 < max now ts - min now ts then .error badAuth
  else
    let x ← orBadAuth (env.frFromStr (Nat.toDigits 10 actor.pubX.toNat))
    let y ← orBadAuth (env.frFromStr (Nat.toDigits 10 actor.pubY.toNat))
    let message ← poseidonHash env [u64ToU256 platformName, u64ToU256 authDomain, u64ToU256 ts]
    if env.verify (x, y) sig message then .ok actor else .error badAuth

structure Request (env : Env) where
  now : UInt64
  req : HttpRequest
  actor : BjjActor
  verified : verifyBjj env now req = .ok actor

end auth

section tables

structure CensusRow where
  id : Int
  title : String
  description : Option String
  creatorX : Word
  creatorY : Word
deriving DecidableEq

structure MemberRow where
  id : Int
  censusId : Int
  name : String
  pubX : Option Word
  pubY : Option Word
  invite : Option Word
deriving DecidableEq

structure Db where
  censuses : List CensusRow
  members : List MemberRow
  nextCensusId : Int
  nextMemberId : Int

/-- Two rows that `uq_census_key` does not allow together. -/
def SameKey (r r' : MemberRow) : Prop :=
  r.censusId = r'.censusId ∧ r.pubX.isSome ∧ r.pubY.isSome ∧ r.pubX = r'.pubX ∧ r.pubY = r'.pubY

instance (r r' : MemberRow) : Decidable (SameKey r r') := inferInstanceAs (Decidable (_ ∧ _))

/-- The constraints of the schema: the primary keys, the reference to the census and the unique indexes. -/
structure Db.Constraints (db : Db) : Prop where
  censusIds : db.censuses.Pairwise fun c c' => c.id ≠ c'.id
  memberIds : db.members.Pairwise fun r r' => r.id ≠ r'.id
  references : ∀ r ∈ db.members, ∃ c ∈ db.censuses, c.id = r.censusId
  invites : db.members.Pairwise fun r r' => r.invite.isSome → r.invite ≠ r'.invite
  keys : db.members.Pairwise fun r r' => ¬SameKey r r'

instance (db : Db) : Decidable db.Constraints :=
  decidable_of_iff (db.censuses.Pairwise (fun c c' => c.id ≠ c'.id) ∧
      db.members.Pairwise (fun r r' => r.id ≠ r'.id) ∧
        (∀ r ∈ db.members, ∃ c ∈ db.censuses, c.id = r.censusId) ∧
      db.members.Pairwise (fun r r' => r.invite.isSome → r.invite ≠ r'.invite) ∧
      db.members.Pairwise fun r r' => ¬SameKey r r')
    ⟨fun ⟨censusIds, memberIds, references, invites, keys⟩ =>
      ⟨censusIds, memberIds, references, invites, keys⟩,
      fun h => ⟨h.censusIds, h.memberIds, h.references, h.invites, h.keys⟩⟩

/-- A statement or a transaction that would break a constraint fails. -/
def Db.checked (db : Db) : Option Db := if db.Constraints then some db else none

def databaseError : Failure := .http 500 "Database error"

end tables

section handlers

def sameKey (a : BjjActor) (x y : Word) : Bool := a.pubX = x && a.pubY = y

/-- The check of the census and of its creator in `add_member`, `remove_member` and `export_census`. -/
def checkCreator (db : Db) (actor : BjjActor) (censusId : Int) (refusal : String) : Response CensusRow :=
  match db.censuses.find? fun c => c.id = censusId with
  | none => .error (.http 404 "no such census")
  | some c => if sameKey actor c.creatorX c.creatorY then .ok c else .error (.http 401 refusal)

structure CreateCensusBody where
  title : String
  description : Option String
  members : Option (List String)

def censusRow (id : Int) (actor : BjjActor) (body : CreateCensusBody) : CensusRow :=
  { id, title := body.title, description := body.description, creatorX := actor.pubX, creatorY := actor.pubY }

def invited (id censusId : Int) (name : String) (token : Word) : MemberRow :=
  { id, censusId, name, pubX := none, pubY := none, invite := some token }

def Db.insertCensus (db : Db) (census : CensusRow) (rows : List MemberRow) : Option Db :=
  { db with censuses := db.censuses ++ [census], members := db.members ++ rows }.checked

def Db.insertMember (db : Db) (censusId : Int) (name : String) (token : Word) : Option Db :=
  { db with
    members := db.members ++ [invited db.nextMemberId censusId name token]
    nextMemberId := db.nextMemberId + 1 }.checked

def Db.deleteMember (db : Db) (memberId censusId : Int) : Db :=
  { db with members := db.members.filter fun r => ¬(r.id = memberId ∧ r.censusId = censusId) }

/-- The rows that the update in `claim_member` takes. -/
def Claimable (memberId censusId : Int) (token : Word) (r : MemberRow) : Prop :=
  r.id = memberId ∧ r.censusId = censusId ∧ r.invite = some token ∧ r.pubX = none

instance (memberId censusId : Int) (token : Word) (r : MemberRow) :
    Decidable (Claimable memberId censusId token r) :=
  inferInstanceAs (Decidable (_ ∧ _))

def MemberRow.join (r : MemberRow) (actor : BjjActor) : MemberRow :=
  { r with pubX := some actor.pubX, pubY := some actor.pubY, invite := none }

def Db.updateMember (db : Db) (actor : BjjActor) (memberId censusId : Int) (token : Word) : Option Db :=
  { db with
    members := db.members.map fun r =>
      if Claimable memberId censusId token r then r.join actor else r }.checked

-- `hex::decode` and the check of the length take what `parse_hex_32` takes, with two messages.
def parseToken (token : List Char) : Response Word :=
  match parseHex32 token with
  | some tok => .ok tok
  | none =>
      if token.length % 2 = 0 ∧ (hexFold 0 token).isSome then .error (.http 400 "bad token len")
      else .error (.http 400 "bad token")

/-- `claim_member` after the authentication. -/
def claimMember (db : Db) (actor : BjjActor) (censusId memberId : Int) (token : List Char) :
    Response Unit × Db :=
  match parseToken token with
  | .error e => (.error e, db)
  | .ok tok =>
      match db.updateMember actor memberId censusId tok with
      | none => (.error databaseError, db)
      | some updated =>
          if (db.members.countP fun r => Claimable memberId censusId tok r) ≠ 1 then
            (.error (.http 409 "invalid token or already claimed"), updated)
          else (.ok (), updated)

def Db.joinedRows (db : Db) (censusId : Int) : List MemberRow :=
  (db.members.filter fun r => r.censusId = censusId ∧ r.pubX.isSome ∧ r.pubY.isSome).insertionSort
    fun r r' => r.id ≤ r'.id

def exportLeaf (env : Env) (r : MemberRow) : Response Word :=
  match r.pubX, r.pubY with
  | some px, some py => poseidonHash env [px, py]
  | _, _ => .error .panic

/-- `export_census`, whose two queries may find different states of the database. -/
def exportCensus (env : Env) (before db : Db) (actor : BjjActor) (censusId : Int) :
    Response (List UInt8) := do
  let _ ← checkCreator before actor censusId "only creator can export"
  let leaves ← (db.joinedRows censusId).mapM (exportLeaf env)
  return leaves.flatMap Word.bytes

end handlers

section interleaving

/-- Where a request waits for its next statement. -/
inductive Call (env : Env) where
  /-- In the transaction of `create_census`, with the names that are left. -/
  | creating (r : Request env) (census : CensusRow) (rows : List MemberRow) (names : List String)
  | adding (r : Request env) (censusId : Int) (name : String)
  | removing (r : Request env) (censusId memberId : Int)

structure System (env : Env) where
  db : Db
  calls : Nat → Option (Call env)

inductive Act (env : Env) where
  | createCensus (i : Nat) (r : Request env) (body : CreateCensusBody)
  | createMember (i : Nat) (token : Word)
  | createCommit (i : Nat)
  | addMember (i : Nat) (r : Request env) (censusId : Int) (name : String)
  | insertMember (i : Nat) (token : Word)
  | removeMember (i : Nat) (r : Request env) (censusId memberId : Int)
  | deleteMember (i : Nat)
  | claimMember (r : Request env) (censusId memberId : Int) (token : List Char)
  | drop (i : Nat)
  | burn (n : Nat)

variable {env : Env}

def System.fresh : System env where
  db := { censuses := [], members := [], nextCensusId := 1, nextMemberId := 1 }
  calls _ := none

def System.set (s : System env) (i : Nat) (call : Option (Call env)) : System env :=
  { s with calls := Function.update s.calls i call }

def System.store (s : System env) (db : Db) : System env := { s with db }

/-- One statement of a request; one that fails leaves the tables as they are. -/
inductive System.Step : System env → Act env → System env → Prop
  | createCensus {s : System env} {i : Nat} (r : Request env) (body : CreateCensusBody)
    (unused : s.calls i = none) :
      Step s (.createCensus i r body)
        ((s.set i (some (.creating r (censusRow s.db.nextCensusId r.actor body) []
          (body.members.getD [])))).store
          { s.db with nextCensusId := s.db.nextCensusId + 1 })
  | createMember {s : System env} {i : Nat} {r : Request env} {census : CensusRow} {rows : List MemberRow}
      {name : String} {names : List String} (token : Word)
      (waits : s.calls i = some (.creating r census rows (name :: names))) :
      Step s (.createMember i token)
        ((s.set i (some (.creating r census (rows ++ [invited s.db.nextMemberId census.id name token])
          names))).store
          { s.db with nextMemberId := s.db.nextMemberId + 1 })
  | createCommit {s : System env} {i : Nat} {r : Request env} {census : CensusRow}
    {rows : List MemberRow} {db : Db}
      (waits : s.calls i = some (.creating r census rows []))
        (inserted : s.db.insertCensus census rows = some db) :
      Step s (.createCommit i) ((s.set i none).store db)
  | addMember {s : System env} {i : Nat} {r : Request env} {censusId : Int} {c : CensusRow} (name : String)
      (unused : s.calls i = none) (checked : checkCreator s.db r.actor censusId "only creator can add" = .ok c) :
      Step s (.addMember i r censusId name) (s.set i (some (.adding r censusId name)))
  | insertMember {s : System env} {i : Nat} {r : Request env} {censusId : Int} {name : String}
    {token : Word} {db : Db}
      (waits : s.calls i = some (.adding r censusId name))
      (inserted : s.db.insertMember censusId name token = some db) :
      Step s (.insertMember i token) ((s.set i none).store db)
  | removeMember {s : System env} {i : Nat} {r : Request env} {censusId : Int} {c : CensusRow}
    (memberId : Int)
      (unused : s.calls i = none) (checked : checkCreator s.db r.actor censusId "only creator can remove" = .ok c) :
      Step s (.removeMember i r censusId memberId) (s.set i (some (.removing r censusId memberId)))
  | deleteMember {s : System env} {i : Nat} {r : Request env} {censusId memberId : Int}
      (waits : s.calls i = some (.removing r censusId memberId)) :
      Step s (.deleteMember i) ((s.set i none).store (s.db.deleteMember memberId censusId))
  | claimMember {s : System env} (r : Request env) (censusId memberId : Int) (token : List Char) :
      Step s (.claimMember r censusId memberId token)
        (s.store (claimMember s.db r.actor censusId memberId token).2)
  -- A statement fails or the request is gone; its transaction is rolled back.
  | drop {s : System env} (i : Nat) : Step s (.drop i) (s.set i none)
  -- Sequences keep the values that failed statements took.
  | burn {s : System env} (n : Nat) : Step s (.burn n)
    (s.store { s.db with nextMemberId := s.db.nextMemberId + n })

end interleaving

end Mootvote.Census
