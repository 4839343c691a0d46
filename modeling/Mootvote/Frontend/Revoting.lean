import Mootvote.Circom.Replay
import Mootvote.Shared.Steps

set_option autoImplicit false

/-!
# Re-voting keys

The browser keeps the key of the voter's last vote, and the next vote names it. A vote takes a while:
its page writes the map of the render in which it began. After a vote that only the chain or only the
browser took, no other counts, unless the voter has none on record and deletes the key.
-/

namespace Mootvote.Frontend

open Shared

section store

-- Of a `RevoKey`, what a vote reads.
structure RevoKey where
  sk : Nat

abbrev RevoKeysMap := String → String → Option RevoKey

namespace RevoKeysMap

-- The callbacks of a render read and write its map, not the one on display when they are called.
variable (map : RevoKeysMap) (accountId pollId : String)

def getForPoll : Option RevoKey := map accountId pollId

def setForPoll (rk : RevoKey) : RevoKeysMap :=
  Function.update map accountId (Function.update (map accountId) pollId (some rk))

def removeForPoll : RevoKeysMap := Function.update map accountId (Function.update (map accountId) pollId none)

def oldSec : Nat := (map.getForPoll accountId pollId).elim 0 RevoKey.sk

variable {map accountId pollId} {other otherPoll : String}

@[simp] theorem oldSec_setForPoll (rk : RevoKey) :
    (map.setForPoll accountId pollId rk).oldSec accountId pollId = rk.sk := by
  simp [oldSec, getForPoll, setForPoll]

@[simp] theorem oldSec_removeForPoll : (map.removeForPoll accountId pollId).oldSec accountId pollId = 0 := by
  simp [oldSec, getForPoll, removeForPoll]

theorem oldSec_setForPoll_of_ne (different : ¬(other = accountId ∧ otherPoll = pollId)) (rk : RevoKey) :
    (map.setForPoll other otherPoll rk).oldSec accountId pollId = map.oldSec accountId pollId := by
  by_cases same : accountId = other
  · subst same
    have apart : pollId ≠ otherPoll := fun equal => different ⟨rfl, equal.symm⟩
    simp [oldSec, getForPoll, setForPoll, apart]
  · simp [oldSec, getForPoll, setForPoll, same]

theorem oldSec_removeForPoll_of_ne (different : ¬(other = accountId ∧ otherPoll = pollId)) :
    (map.removeForPoll other otherPoll).oldSec accountId pollId = map.oldSec accountId pollId := by
  by_cases same : accountId = other
  · subst same
    have apart : pollId ≠ otherPoll := fun equal => different ⟨rfl, equal.symm⟩
    simp [oldSec, getForPoll, removeForPoll, apart]
  · simp [oldSec, getForPoll, removeForPoll, same]

end RevoKeysMap

/-- The provider's state and the map that the stored blob decrypts to. -/
structure RevoKeys where
  blob : Option RevoKeysMap
  map : RevoKeysMap

namespace RevoKeys

variable (s : RevoKeys)

def restart : RevoKeys := { s with map := fun _ _ => none }

def saved : RevoKeysMap := s.blob.getD fun _ _ => none

def display (map : RevoKeysMap) : RevoKeys := { s with map }

def persist (next : RevoKeysMap) : RevoKeys := { blob := some next, map := next }

def Loaded : Prop := s.map = s.saved

@[simp] theorem saved_persist (next : RevoKeysMap) : (persist next).saved = next := rfl

end RevoKeys

end store

section protocol

variable {H : IdealHash Fr} {K : Type}

/-- A run of `onVoteClick` from `getForPoll` on: what it captured, and how far it got. -/
structure Flight (H : IdealHash Fr) where
  accountId : String
  pollId : String
  map : RevoKeysMap
  rk : RevoKey
  vote : Revote H
  page : Bool
  landed : Bool

def Flight.Of (f : Flight H) (accountId pollId : String) : Prop := f.accountId = accountId ∧ f.pollId = pollId

instance (f : Flight H) (accountId pollId : String) : Decidable (f.Of accountId pollId) :=
  inferInstanceAs (Decidable (_ ∧ _))

/-- A run of `removeForPoll`, with the map of the list in which the key was deleted. -/
structure Removal where
  accountId : String
  pollId : String
  map : RevoKeysMap

/-- The browser of one voter, what is under way in it, and the votes that the chain took. -/
structure VoterSystem (H : IdealHash Fr) where
  store : RevoKeys
  -- What calls of `reload` have read and not displayed yet.
  reads : List RevoKeysMap
  removals : List Removal
  flights : List (Flight H)
  accepted : List (Revote H)

def VoterSystem.empty : VoterSystem H where
  store := { blob := none, map := fun _ _ => none }
  reads := []
  removals := []
  flights := []
  accepted := []

/-- `land` is the chain taking a vote, `confirm` its page's `setForPoll`. After `settle` neither happens. -/
inductive VoterAct (H : IdealHash Fr)
  | restart
  | read
  | display (map : RevoKeysMap)
  | remove (r : Removal)
  | removed (r : Removal)
  | kept (r : Removal)
  | other (m : Revote H)
  | replay (m : Revote H)
  | start (f : Flight H)
  | land (f : Flight H)
  | confirm (f : Flight H)
  | settle (f : Flight H)

variable (accountId pollId : String) (nu : Fr) (key : Fr → K)

inductive VoterStep : VoterSystem H → VoterAct H → VoterSystem H → Prop
  | restart (s : VoterSystem H) : VoterStep s .restart
      { s with store := s.store.restart, reads := [], removals := []
               flights := s.flights.map fun f => { f with page := false } }
  | read (s : VoterSystem H) : VoterStep s .read { s with reads := s.reads ++ [s.store.saved] }
  -- What cannot be decrypted is displayed as no keys.
  | display (s : VoterSystem H) {map shown : RevoKeysMap} {before after : List RevoKeysMap}
      (reads : s.reads = before ++ map :: after) (decrypted : shown = map ∨ shown = fun _ _ => none) :
      VoterStep s (.display shown) { s with store := s.store.display shown, reads := before ++ after }
  | remove (s : VoterSystem H) {r : Removal} (render : r.map = s.store.map) :
      VoterStep s (.remove r) { s with removals := s.removals ++ [r] }
  | removed (s : VoterSystem H) {r : Removal} {before after : List Removal}
      (removals : s.removals = before ++ r :: after) :
      VoterStep s (.removed r) { s with store := .persist (r.map.removeForPoll r.accountId r.pollId)
                                        removals := before ++ after }
  | kept (s : VoterSystem H) {r : Removal} {before after : List Removal}
      (removals : s.removals = before ++ r :: after) :
      VoterStep s (.kept r) { s with removals := before ++ after }
  | other (s : VoterSystem H) {m : Revote H} (foreign : key m.nu ≠ key nu) :
      VoterStep s (.other m) { s with accepted := s.accepted ++ [m] }
  | replay (s : VoterSystem H) {m : Revote H} (member : m ∈ s.accepted) :
      VoterStep s (.replay m) { s with accepted := s.accepted ++ [m] }
  | start (s : VoterSystem H) {f : Flight H} (render : f.map = s.store.map) (under : f.landed = false)
      (old : f.vote.old = f.map.oldSec f.accountId f.pollId) (new : f.vote.new = f.rk.sk)
      (own : f.Of accountId pollId → f.vote.nu = nu) :
      VoterStep s (.start f) { s with flights := s.flights ++ [f] }
  -- What lands for another account or poll is an `other`, if it concerns this poll.
  | land (s : VoterSystem H) {f : Flight H} {before after : List (Flight H)}
      (flights : s.flights = before ++ f :: after) (own : f.Of accountId pollId) (under : f.landed = false) :
      VoterStep s (.land f) { s with accepted := s.accepted ++ [f.vote]
                                     flights := before ++ { f with landed := true } :: after }
  | confirm (s : VoterSystem H) {f : Flight H} {before after : List (Flight H)}
      (flights : s.flights = before ++ f :: after) (waiting : f.page = true) :
      VoterStep s (.confirm f) { s with store := .persist (f.map.setForPoll f.accountId f.pollId f.rk)
                                        flights := before ++ { f with page := false } :: after }
  | settle (s : VoterSystem H) {f : Flight H} {before after : List (Flight H)}
      (flights : s.flights = before ++ f :: after) :
      VoterStep s (.settle f) { s with flights := before ++ after }

/-- Nothing begins unless the saved map is on display and nothing else is under way; the page checks neither. -/
def VoterAct.Waits (s : VoterSystem H) : VoterAct H → Prop
  | .start _ | .remove _ => s.store.Loaded ∧ s.removals = [] ∧ s.flights = []
  | _ => True

def VoterTurn (s : VoterSystem H) (act : VoterAct H) (s' : VoterSystem H) : Prop :=
  VoterStep accountId pollId nu key s act s' ∧ act.Waits s

def VoterAct.new : VoterAct H → Option Fr
  | .start f => some f.vote.new
  | _ => none

def news (acts : List (VoterAct H)) : List Fr := acts.filterMap VoterAct.new

theorem news_snoc (acts : List (VoterAct H)) (act : VoterAct H) :
    news (acts ++ [act]) = news acts ++ act.new.toList := by
  rw [news, List.filterMap_append]
  cases act <;> rfl

/-- The last vote of the voter that counts, whether browser and chain had parted before it, and how far it got. -/
structure Progress (H : IdealHash Fr) where
  last : Option (Revote H)
  apart : Bool
  landed : Bool
  confirmed : Bool

namespace Progress

variable (p : Progress H)

def parted : Bool := p.apart || p.landed != p.confirmed

def current : Fr := p.last.elim 0 Revote.new

def next : VoterAct H → Progress H
  | .start f =>
      if f.Of accountId pollId then { p with apart := p.parted, landed := false, confirmed := false } else p
  | .land f => { p with landed := true, last := if p.apart then p.last else some f.vote }
  | .confirm f => if f.Of accountId pollId then { p with confirmed := true } else p
  -- Without its key the browser starts anew, as the record does if no vote landed.
  | .removed r =>
      if r.accountId = accountId ∧ r.pollId = pollId then
        { p with apart := p.last.isSome, landed := false, confirmed := false }
      else p
  | _ => p

end Progress

def progress (acts : List (VoterAct H)) : Progress H :=
  acts.foldl (Progress.next accountId pollId) { last := none, apart := false, landed := false, confirmed := false }

theorem progress_snoc (acts : List (VoterAct H)) (act : VoterAct H) :
    progress accountId pollId (acts ++ [act]) = (progress accountId pollId acts).next accountId pollId act := by
  rw [progress, List.foldl_append, List.foldl_cons, List.foldl_nil]
  rfl

structure OwnFlight (nu : Fr) (key : Fr → K) (p : Progress H) (drawn : List Fr) (saved : Nat)
    (accepted : List (Revote H)) (f : Flight H) : Prop where
  voter : f.vote.nu = nu
  brings : f.vote.new = f.rk.sk
  landed : f.landed = p.landed
  waiting : f.page = true → p.confirmed = false
  old : f.landed = false → (f.vote.old = p.current ↔ p.apart = false)
  new : f.vote.new = p.current ↔ f.landed = true ∧ p.apart = false
  stored : (saved : Fr) = f.vote.new ↔ p.confirmed = true
  unused : f.landed = false → ∀ m ∈ accepted, key m.nu = key nu → m.old ≠ f.vote.new
  oldDrawn : f.vote.old = 0 ∨ f.vote.old ∈ drawn
  newDrawn : f.vote.new ∈ drawn

structure Flying (accountId pollId : String) (nu : Fr) (key : Fr → K) (p : Progress H) (drawn : List Fr)
    (saved : Nat) (accepted : List (Revote H)) (f : Flight H) : Prop where
  own : f.Of accountId pollId → OwnFlight nu key p drawn saved accepted f
  foreign : ¬f.Of accountId pollId → f.page = true → f.map.oldSec accountId pollId = saved

variable {accountId pollId nu key} [DecidableEq K]

/-- Every earlier vote has left the key on record, and the browser has another one once they parted. -/
structure KeysInStep (accountId pollId : String) (nu : Fr) (key : Fr → K) (p : Progress H) (drawn : List Fr)
    (s : VoterSystem H) : Prop where
  counted : record key s.accepted (key nu) = p.last.map fun m => (m.choice, m.newHash)
  onRecord : (record key s.accepted).revotingKey H (key nu) = H.hash [p.current]
  known : p.current = 0 ∨ p.current ∈ drawn
  saved : (s.store.saved.oldSec accountId pollId : Fr) = 0 ∨
    (s.store.saved.oldSec accountId pollId : Fr) ∈ drawn
  olds : ∀ m ∈ s.accepted, key m.nu = key nu → m.old ≠ p.current ∧ (m.old = 0 ∨ m.old ∈ drawn)
  inStep : (s.store.saved.oldSec accountId pollId : Fr) = p.current ↔ p.parted = false
  removals : s.removals = [] ∨ s.flights = [] ∧ ∃ r, s.removals = [r] ∧
    r.map.oldSec accountId pollId = s.store.saved.oldSec accountId pollId
  flights : s.flights = [] ∨ ∃ f, s.flights = [f] ∧
    Flying accountId pollId nu key p drawn (s.store.saved.oldSec accountId pollId) s.accepted f

section flights

variable {p p' : Progress H} {drawn drawn' : List Fr} {saved : Nat} {accepted accepted' : List (Revote H)}
  {f : Flight H}

omit [DecidableEq K] in
theorem OwnFlight.mono (own : OwnFlight nu key p drawn saved accepted f) (more : drawn ⊆ drawn')
    (olds : ∀ m ∈ accepted', key m.nu = key nu → m ∈ accepted) :
    OwnFlight nu key p drawn' saved accepted' f :=
  { own with
    unused := fun under m member mine => own.unused under m (olds m member mine) mine
    oldDrawn := own.oldDrawn.imp id fun known => more known
    newDrawn := more own.newDrawn }

omit [DecidableEq K] in
theorem OwnFlight.leave (own : OwnFlight nu key p drawn saved accepted f) :
    OwnFlight nu key p drawn saved accepted { f with page := false } :=
  { own with waiting := nofun }

omit [DecidableEq K] in
theorem Flying.mono (flying : Flying accountId pollId nu key p drawn saved accepted f) (more : drawn ⊆ drawn')
    (olds : ∀ m ∈ accepted', key m.nu = key nu → m ∈ accepted) :
    Flying accountId pollId nu key p drawn' saved accepted' f where
  own mine := (flying.own mine).mono more olds
  foreign := flying.foreign

omit [DecidableEq K] in
theorem Flying.leave (flying : Flying accountId pollId nu key p drawn saved accepted f) :
    Flying accountId pollId nu key p drawn saved accepted { f with page := false } where
  own mine := (flying.own mine).leave
  foreign _ := nofun

theorem alone {T : Type} {flights before after : List T} {f : T} {P : T → Prop}
    (few : flights = [] ∨ ∃ g, flights = [g] ∧ P g) (split : flights = before ++ f :: after) :
    before = [] ∧ after = [] ∧ P f := by
  rcases few with none | ⟨g, one, holds⟩
  · simp [none] at split
  · rw [one, eq_comm, List.append_eq_singleton_iff] at split
    rcases split with ⟨rfl, same⟩ | ⟨_, same⟩
    · obtain ⟨rfl, rfl⟩ := List.cons.inj same
      exact ⟨rfl, rfl, holds⟩
    · cases same

end flights

namespace KeysInStep

variable {p p' : Progress H} {drawn drawn' : List Fr} {s s' : VoterSystem H} {m : Revote H} {f : Flight H}

theorem initial : KeysInStep accountId pollId nu key
    { last := none, apart := false, landed := false, confirmed := false } [] (VoterSystem.empty (H := H)) where
  counted := rfl
  onRecord := rfl
  known := .inl rfl
  saved := .inl (by simp [VoterSystem.empty, RevoKeys.saved, RevoKeysMap.oldSec, RevoKeysMap.getForPoll])
  olds := by simp [VoterSystem.empty]
  inStep := by
    simp [VoterSystem.empty, RevoKeys.saved, RevoKeysMap.oldSec, RevoKeysMap.getForPoll, Progress.current,
      Progress.parted]
  removals := .inl rfl
  flights := .inl rfl

theorem quiet (inStep : KeysInStep accountId pollId nu key p drawn s) (more : drawn ⊆ drawn')
    (saved : s'.store.saved.oldSec accountId pollId = s.store.saved.oldSec accountId pollId)
    (same : record key s'.accepted (key nu) = record key s.accepted (key nu))
    (olds : ∀ m ∈ s'.accepted, key m.nu = key nu → m ∈ s.accepted)
    (removals : s'.removals = [] ∨ s'.removals = s.removals ∧ s'.flights = s.flights)
    (flights : s'.flights = [] ∨ ∃ f, s'.flights = [f] ∧
      Flying accountId pollId nu key p drawn' (s.store.saved.oldSec accountId pollId) s'.accepted f) :
    KeysInStep accountId pollId nu key p drawn' s' where
  counted := by rw [same, inStep.counted]
  onRecord := by
    rw [Book.revotingKey, same]
    exact inStep.onRecord
  known := inStep.known.imp id fun known => more known
  saved := by
    rw [saved]
    exact inStep.saved.imp id fun known => more known
  olds m member own := (inStep.olds m (olds m member own) own).imp id fun known => known.imp id fun known => more known
  inStep := by rw [saved]; exact inStep.inStep
  removals := by
    rcases removals with none | ⟨here, flying⟩
    · exact .inl none
    · rw [here, flying, saved]
      exact inStep.removals
  flights := by rwa [saved]

theorem no_removals (inStep : KeysInStep accountId pollId nu key p drawn s) (flies : s.flights ≠ []) :
    s.removals = [] := inStep.removals.resolve_right fun ⟨idle, _⟩ => flies idle

theorem flights_mono (inStep : KeysInStep accountId pollId nu key p drawn s) (more : drawn ⊆ drawn')
    {accepted : List (Revote H)} (olds : ∀ m ∈ accepted, key m.nu = key nu → m ∈ s.accepted) :
    s.flights = [] ∨ ∃ f, s.flights = [f] ∧
      Flying accountId pollId nu key p drawn' (s.store.saved.oldSec accountId pollId) accepted f :=
  inStep.flights.imp id fun ⟨f, one, flying⟩ => ⟨f, one, flying.mono more olds⟩

theorem not_applies (inStep : KeysInStep accountId pollId nu key p drawn s) (own : key m.nu = key nu)
    (other : m.old ≠ p.current) : ¬m.Applies key (record key s.accepted) := by
  intro applies
  rw [Revote.Applies, own, inStep.onRecord] at applies
  have equal := H.injective applies m.oldHashed
  simp only [List.cons.injEq, and_true] at equal
  exact other equal.symm

theorem record_foreign (foreign : key m.nu ≠ key nu) (ms : List (Revote H)) :
    record key (ms ++ [m]) (key nu) = record key ms (key nu) := by
  rw [record_snoc]
  by_cases applies : m.Applies key (record key ms)
  · rw [applies.apply, Function.update_of_ne (Ne.symm foreign)]
  · rw [Revote.apply_of_not applies]

theorem other (inStep : KeysInStep accountId pollId nu key p drawn s) (foreign : key m.nu ≠ key nu) :
    KeysInStep accountId pollId nu key p drawn { s with accepted := s.accepted ++ [m] } := by
  have olds : ∀ m' ∈ s.accepted ++ [m], key m'.nu = key nu → m' ∈ s.accepted := by
    intro m' member mine
    rcases List.mem_append.1 member with there | last
    · exact there
    · exact absurd (List.mem_singleton.1 last ▸ mine) foreign
  exact inStep.quiet (List.Subset.refl _) rfl (record_foreign foreign _) olds (.inr ⟨rfl, rfl⟩)
    (inStep.flights_mono (List.Subset.refl _) olds)

theorem replay (inStep : KeysInStep accountId pollId nu key p drawn s) (member : m ∈ s.accepted) :
    KeysInStep accountId pollId nu key p drawn { s with accepted := s.accepted ++ [m] } := by
  have olds : ∀ m' ∈ s.accepted ++ [m], key m'.nu = key nu → m' ∈ s.accepted := by
    intro m' member' _
    rcases List.mem_append.1 member' with old | new
    · exact old
    · exact List.mem_singleton.1 new ▸ member
  refine inStep.quiet (List.Subset.refl _) rfl ?_ olds (.inr ⟨rfl, rfl⟩)
    (inStep.flights_mono (List.Subset.refl _) olds)
  by_cases own : key m.nu = key nu
  · rw [record_snoc, Revote.apply_of_not (inStep.not_applies own (inStep.olds m member own).1)]
  · exact record_foreign own _

theorem current_zero_iff (p : Progress H) : p.current = 0 ↔ p.last.isSome = false := by
  cases last : p.last with
  | none => simp [Progress.current, last]
  | some m => simp [Progress.current, last, m.newNonzero]

theorem start_own (inStep : KeysInStep accountId pollId nu key p drawn s) (loaded : s.store.Loaded)
    (free : s.removals = []) (idle : s.flights = []) (own : f.Of accountId pollId) (voter : f.vote.nu = nu) (render : f.map = s.store.map)
    (under : f.landed = false) (old : f.vote.old = f.map.oldSec f.accountId f.pollId)
    (brings : f.vote.new = f.rk.sk) (fresh : f.vote.new ∉ drawn) :
    KeysInStep accountId pollId nu key { p with apart := p.parted, landed := false, confirmed := false }
      (drawn ++ [f.vote.new]) { s with flights := s.flights ++ [f] } := by
  have more : drawn ⊆ drawn ++ [f.vote.new] := List.subset_append_left _ _
  have unused {x : Fr} (known : x = 0 ∨ x ∈ drawn) : x ≠ f.vote.new := by
    rintro rfl
    exact known.elim f.vote.newNonzero fresh
  rw [own.1, own.2, render, loaded] at old
  constructor
  case counted => exact inStep.counted
  case onRecord => exact inStep.onRecord
  case known => exact inStep.known.imp id fun known => more known
  case saved => exact inStep.saved.imp id fun known => more known
  case olds =>
    exact fun m member mine => (inStep.olds m member mine).imp id fun known => known.imp id fun known => more known
  case inStep =>
    refine inStep.inStep.trans ?_
    simp [Progress.parted]
  case removals => exact .inl free
  case flights =>
    refine .inr ⟨f, by rw [idle, List.nil_append], fun _ => ?_, fun foreign => absurd own foreign⟩
    constructor
    case voter => exact voter
    case brings => exact brings
    case landed => exact under
    case waiting => exact fun _ => rfl
    case old => exact fun _ => old ▸ inStep.inStep
    case new =>
      refine ⟨fun same => absurd same.symm (unused inStep.known), fun done => ?_⟩
      rw [under] at done
      cases done.1
    case stored => simpa using unused inStep.saved
    case unused => exact fun _ m member mine => unused (inStep.olds m member mine).2
    case oldDrawn => exact (old ▸ inStep.saved).imp id fun known => more known
    case newDrawn => exact List.mem_append_right _ (List.mem_singleton_self _)

theorem land (inStep : KeysInStep accountId pollId nu key p drawn s) (free : s.removals = [])
    (mine : f.Of accountId pollId)
    (own : OwnFlight nu key p drawn (s.store.saved.oldSec accountId pollId) s.accepted f)
    (under : f.landed = false) :
    KeysInStep accountId pollId nu key
      { p with landed := true, last := if p.apart then p.last else some f.vote } drawn
      { s with accepted := s.accepted ++ [f.vote], flights := [{ f with landed := true }] } := by
  have isKey : key f.vote.nu = key nu := by rw [own.voter]
  have before : p.landed = false := own.landed ▸ under
  have unborn : f.vote.new ≠ p.current := by
    intro same
    have landed := (own.new.1 same).1
    rw [under] at landed
    cases landed
  cases apart : p.apart
  · -- It names the key on record.
    have old : f.vote.old = p.current := (own.old under).2 apart
    have applies : f.vote.Applies key (record key s.accepted) := by
      rw [Revote.Applies, isKey, inStep.onRecord, ← old, f.vote.oldHashed]
    have leaves : record key (s.accepted ++ [f.vote]) (key nu) = some (f.vote.choice, f.vote.newHash) := by
      rw [record_snoc, applies.apply, isKey, Function.update_self]
    constructor
    case counted => exact leaves
    case onRecord =>
      rw [Book.revotingKey, leaves]
      exact f.vote.newHashed.symm
    case known => exact .inr own.newDrawn
    case saved => exact inStep.saved
    case olds =>
      intro m member isOwn
      rcases List.mem_append.1 member with there | last
      · exact ⟨own.unused under m there isOwn, (inStep.olds m there isOwn).2⟩
      · rw [List.mem_singleton.1 last]
        exact ⟨Ne.symm f.vote.newFresh, own.oldDrawn⟩
    case inStep =>
      refine own.stored.trans ?_
      simp [Progress.parted]
    case removals => exact .inl free
    case flights =>
      refine .inr ⟨_, rfl, fun _ => ?_, fun foreign => absurd mine foreign⟩
      exact { own with
        landed := rfl
        old := Bool.noConfusion
        new := ⟨fun _ => ⟨rfl, rfl⟩, fun _ => rfl⟩
        unused := Bool.noConfusion }
  · have other : f.vote.old ≠ p.current := by
      intro same
      have together := (own.old under).1 same
      rw [apart] at together
      cases together
    have same : record key (s.accepted ++ [f.vote]) = record key s.accepted :=
      (record_snoc _ _).trans (Revote.apply_of_not (inStep.not_applies isKey other))
    constructor
    case counted => exact same ▸ inStep.counted
    case onRecord => exact same ▸ inStep.onRecord
    case known => exact inStep.known
    case saved => exact inStep.saved
    case olds =>
      intro m member isOwn
      rcases List.mem_append.1 member with there | last
      · exact inStep.olds m there isOwn
      · rw [List.mem_singleton.1 last]
        exact ⟨other, own.oldDrawn⟩
    case inStep =>
      refine inStep.inStep.trans ?_
      simp [Progress.parted, apart]
    case removals => exact .inl free
    case flights =>
      refine .inr ⟨_, rfl, fun _ => ?_, fun foreign => absurd mine foreign⟩
      exact { own with
        landed := rfl
        old := Bool.noConfusion
        new := ⟨fun same => absurd same unborn, fun done => Bool.noConfusion done.2⟩
        unused := Bool.noConfusion }

theorem confirm_own (inStep : KeysInStep accountId pollId nu key p drawn s) (free : s.removals = []) (mine : f.Of accountId pollId)
    (own : OwnFlight nu key p drawn (s.store.saved.oldSec accountId pollId) s.accepted f) :
    KeysInStep accountId pollId nu key { p with confirmed := true } drawn
      { s with store := .persist (f.map.setForPoll f.accountId f.pollId f.rk)
               flights := [{ f with page := false }] } := by
  have stores : ((f.map.setForPoll f.accountId f.pollId f.rk).oldSec accountId pollId : Fr) = f.vote.new := by
    rw [← mine.1, ← mine.2, RevoKeysMap.oldSec_setForPoll, own.brings]
  constructor
  case counted => exact inStep.counted
  case onRecord => exact inStep.onRecord
  case known => exact inStep.known
  case saved => exact .inr (stores ▸ own.newDrawn)
  case olds => exact inStep.olds
  case inStep =>
    rw [RevoKeys.saved_persist, stores]
    refine own.new.trans ?_
    rw [own.landed]
    cases p.landed <;> cases p.apart <;> simp [Progress.parted]
  case removals => exact .inl free
  case flights =>
    refine .inr ⟨_, rfl, fun _ => ?_, fun _ => nofun⟩
    exact { own with
      waiting := nofun
      stored := by rw [RevoKeys.saved_persist, stores]; simp }

theorem removed_own (inStep : KeysInStep accountId pollId nu key p drawn s) (idle : s.flights = [])
    (map : RevoKeysMap) : KeysInStep accountId pollId nu key
      { p with apart := p.last.isSome, landed := false, confirmed := false } drawn
      { s with store := .persist (map.removeForPoll accountId pollId), removals := [] } where
  counted := inStep.counted
  onRecord := inStep.onRecord
  known := inStep.known
  saved := .inl (by simp)
  olds := inStep.olds
  inStep := by
    rw [RevoKeys.saved_persist, RevoKeysMap.oldSec_removeForPoll, Nat.cast_zero, eq_comm]
    refine (current_zero_iff p).trans ?_
    simp [Progress.parted]
  removals := .inl rfl
  flights := .inl idle

theorem step (inStep : KeysInStep accountId pollId nu key p drawn s) {act : VoterAct H}
    (turn : VoterTurn accountId pollId nu key s act s') (fresh : ∀ x ∈ act.new, x ∉ drawn) :
    KeysInStep accountId pollId nu key (p.next accountId pollId act) (drawn ++ act.new.toList) s' := by
  obtain ⟨step, waits⟩ := turn
  have same : drawn ⊆ drawn := List.Subset.refl _
  have there : ∀ m ∈ s.accepted, key m.nu = key nu → m ∈ s.accepted := fun _ member _ => member
  have flies {f : Flight H} {before after : List (Flight H)} (flights : s.flights = before ++ f :: after) :
      s.flights ≠ [] := by simp [flights]
  cases step with
  | restart =>
      rw [show VoterAct.restart.new.toList = ([] : List Fr) from rfl, List.append_nil]
      refine inStep.quiet same rfl rfl there (.inl rfl) ?_
      rcases inStep.flights with none | ⟨f, one, flying⟩
      · exact .inl (by rw [none]; rfl)
      · exact .inr ⟨_, by rw [one]; rfl, flying.leave⟩
  | read =>
      rw [show VoterAct.read.new.toList = ([] : List Fr) from rfl, List.append_nil]
      exact inStep.quiet same rfl rfl there (.inr ⟨rfl, rfl⟩) inStep.flights
  | display reads decrypted =>
      rw [show (VoterAct.display _).new.toList = ([] : List Fr) from rfl, List.append_nil]
      exact inStep.quiet same rfl rfl there (.inr ⟨rfl, rfl⟩) inStep.flights
  | other foreign => exact (List.append_nil drawn).symm ▸ inStep.other foreign
  | replay member => exact (List.append_nil drawn).symm ▸ inStep.replay member
  | @remove r render =>
      rw [show (VoterAct.remove r).new.toList = ([] : List Fr) from rfl, List.append_nil]
      refine { inStep with removals := .inr ⟨waits.2.2, r, ?_, ?_⟩ }
      · rw [waits.2.1, List.nil_append]
      · rw [render, waits.1]
  | @removed r before after removals =>
      rw [show (VoterAct.removed r).new.toList = ([] : List Fr) from rfl, List.append_nil, Progress.next]
      have idle : s.flights = [] := by
        rcases inStep.removals with none | ⟨idle, _⟩
        · simp [none] at removals
        · exact idle
      obtain ⟨rfl, rfl, kept⟩ := alone (inStep.removals.imp id And.right) removals
      by_cases own : r.accountId = accountId ∧ r.pollId = pollId
      · rw [if_pos own]
        obtain ⟨rfl, rfl⟩ := own
        exact inStep.removed_own idle _
      · rw [if_neg own]
        refine inStep.quiet same ?_ rfl there (.inl rfl) (.inl idle)
        rw [RevoKeys.saved_persist, RevoKeysMap.oldSec_removeForPoll_of_ne own, kept]
  | @kept r before after removals =>
      rw [show (VoterAct.kept r).new.toList = ([] : List Fr) from rfl, List.append_nil]
      obtain ⟨rfl, rfl, _⟩ := alone (inStep.removals.imp id And.right) removals
      exact inStep.quiet same rfl rfl there (.inl rfl) inStep.flights
  | @start f render under old new voter =>
      rw [show (VoterAct.start f).new.toList = [f.vote.new] from rfl, Progress.next]
      obtain ⟨loaded, free, idle⟩ := waits
      by_cases own : f.Of accountId pollId
      · rw [if_pos own]
        exact inStep.start_own loaded free idle own (voter own) render under old new (fresh _ rfl)
      · rw [if_neg own]
        refine inStep.quiet (List.subset_append_left _ _) rfl rfl there (.inl free)
          (.inr ⟨f, ?_, ?_, fun _ _ => ?_⟩)
        · rw [idle, List.nil_append]
        · exact fun mine => absurd mine own
        · rw [render, loaded]
  | @land f before after flights mine under =>
      have free := inStep.no_removals (flies flights)
      obtain ⟨rfl, rfl, flying⟩ := alone inStep.flights flights
      exact (List.append_nil drawn).symm ▸ inStep.land free mine (flying.own mine) under
  | @confirm f before after flights waiting =>
      have free := inStep.no_removals (flies flights)
      obtain ⟨rfl, rfl, flying⟩ := alone inStep.flights flights
      rw [show (VoterAct.confirm f).new.toList = ([] : List Fr) from rfl, List.append_nil, Progress.next]
      by_cases own : f.Of accountId pollId
      · rw [if_pos own]
        exact inStep.confirm_own free own (flying.own own)
      · rw [if_neg own]
        refine inStep.quiet same ?_ rfl there (.inl free) (.inr ⟨_, rfl, flying.leave⟩)
        rw [RevoKeys.saved_persist, RevoKeysMap.oldSec_setForPoll_of_ne own, flying.foreign own waiting]
  | @settle f before after flights =>
      have free := inStep.no_removals (flies flights)
      obtain ⟨rfl, rfl, _⟩ := alone inStep.flights flights
      exact (List.append_nil drawn).symm ▸ inStep.quiet same rfl rfl there (.inl free) (.inl rfl)

end KeysInStep

/-- The tally keeps the last vote that landed until browser and chain parted, whatever is sent later or again. -/
theorem revote_run {acts : List (VoterAct H)} {s : VoterSystem H}
    (run : Steps (VoterTurn accountId pollId nu key) .empty acts s)
    (fresh : (news acts).Nodup) :
    record key s.accepted (key nu) =
      (progress accountId pollId acts).last.map fun m => (m.choice, m.newHash) := by
  have invariant := run.invariant (I := fun past mid => past <+: acts →
    KeysInStep accountId pollId nu key (progress accountId pollId past) (news past) mid) (fun _ => .initial) ?_
  · exact (invariant (List.prefix_refl _)).counted
  · intro past mid act mid' _ before turn inside
    have inStep := before ((List.prefix_append _ _).trans inside)
    rw [progress_snoc, news_snoc]
    refine inStep.step turn fun x isNew old => ?_
    obtain ⟨later, rfl⟩ := inside
    have twice : news (past ++ [act] ++ later) = news past ++ act.new.toList ++ news later := by
      rw [news, List.filterMap_append, ← news, ← news, news_snoc]
    rw [twice, List.nodup_append, List.nodup_append] at fresh
    exact fresh.1.2.2 x old x (Option.mem_toList.2 isNew) rfl

end protocol

namespace ThreeClicks

def hash : IdealHash Fr :=
  .ofTable [([0], 100), ([16], 101), ([17], 102), ([18], 103), ([19], 104)] (by decide +kernel) (by decide +kernel)

def first : Revote hash where
  nu := 5
  choice := 1
  old := 0
  new := 16
  oldHash := 100
  newHash := 101
  oldHashed := by decide +kernel
  newHashed := by decide +kernel
  newNonzero := by decide +kernel
  newFresh := by decide +kernel

def second : Revote hash where
  nu := 5
  choice := 2
  old := 16
  new := 17
  oldHash := 101
  newHash := 102
  oldHashed := by decide +kernel
  newHashed := by decide +kernel
  newNonzero := by decide +kernel
  newFresh := by decide +kernel

/-- The browser missed the second vote, so its third one names the first key again. -/
def third : Revote hash where
  nu := 5
  choice := 3
  old := 16
  new := 18
  oldHash := 101
  newHash := 103
  oldHashed := by decide +kernel
  newHashed := by decide +kernel
  newNonzero := by decide +kernel
  newFresh := by decide +kernel

def elsewhere : Revote hash where
  nu := 6
  choice := 1
  old := 0
  new := 19
  oldHash := 100
  newHash := 104
  oldHashed := by decide +kernel
  newHashed := by decide +kernel
  newNonzero := by decide +kernel
  newFresh := by decide +kernel

def noKeys : RevoKeysMap := fun _ _ => none

def oneKey : RevoKeysMap := noKeys.setForPoll "a" "7" ⟨16⟩

def twoKeys : RevoKeysMap := oneKey.setForPoll "a" "8" ⟨19⟩

def removal : Removal where
  accountId := "a"
  pollId := "8"
  map := twoKeys

def flight (pollId : String) (map : RevoKeysMap) (rk : RevoKey) (vote : Revote hash) : Flight hash :=
  { accountId := "a", pollId, map, rk, vote, page := true, landed := false }

def acts : List (VoterAct hash) :=
  let f := flight "7" noKeys ⟨16⟩ first
  let g := flight "8" oneKey ⟨19⟩ elsewhere
  let h := flight "7" twoKeys ⟨17⟩ second
  let k := flight "7" twoKeys ⟨18⟩ third
  [.start f, .land f, .replay first, .confirm { f with landed := true }, .settle { f with landed := true, page := false },
    .start g, .confirm g, .settle { g with page := false }, .restart, .read, .display twoKeys,
    .start h, .land h, .settle { h with landed := true }, .start k, .replay first, .land k,
    .settle { k with landed := true }, .remove removal, .removed removal]

theorem acts_run : ∃ s : VoterSystem hash, Steps (VoterTurn "a" "7" (5 : Fr) id) .empty acts s := by
  refine ⟨_, .cons ⟨.start _ rfl rfl ?_ rfl fun _ => rfl, rfl, rfl, rfl⟩
    (.cons ⟨@VoterStep.land _ _ _ _ _ _ _ _ [] [] rfl ⟨rfl, rfl⟩ rfl, trivial⟩
    (.cons ⟨.replay _ (List.mem_singleton_self _), trivial⟩
    (.cons ⟨@VoterStep.confirm _ _ _ _ _ _ _ _ [] [] rfl rfl, trivial⟩
    (.cons ⟨@VoterStep.settle _ _ _ _ _ _ _ _ [] [] rfl, trivial⟩
    (.cons ⟨.start _ rfl rfl ?_ rfl fun own => ?_, rfl, rfl, rfl⟩
    (.cons ⟨@VoterStep.confirm _ _ _ _ _ _ _ _ [] [] rfl rfl, trivial⟩
    (.cons ⟨@VoterStep.settle _ _ _ _ _ _ _ _ [] [] rfl, trivial⟩
    (.cons ⟨.restart _, trivial⟩ (.cons ⟨.read _, trivial⟩
    (.cons ⟨@VoterStep.display _ _ _ _ _ _ _ _ _ [] [] rfl (.inl rfl), trivial⟩
    (.cons ⟨.start _ rfl rfl ?_ rfl fun _ => rfl, rfl, rfl, rfl⟩
    (.cons ⟨@VoterStep.land _ _ _ _ _ _ _ _ [] [] rfl ⟨rfl, rfl⟩ rfl, trivial⟩
    (.cons ⟨@VoterStep.settle _ _ _ _ _ _ _ _ [] [] rfl, trivial⟩
    (.cons ⟨.start _ rfl rfl ?_ rfl fun _ => rfl, rfl, rfl, rfl⟩
    (.cons ⟨.replay _ List.mem_cons_self, trivial⟩
    (.cons ⟨@VoterStep.land _ _ _ _ _ _ _ _ [] [] rfl ⟨rfl, rfl⟩ rfl, trivial⟩
    (.cons ⟨@VoterStep.settle _ _ _ _ _ _ _ _ [] [] rfl, trivial⟩
    (.cons ⟨.remove _ rfl, rfl, rfl, rfl⟩
    (.cons ⟨@VoterStep.removed _ _ _ _ _ _ _ _ [] [] rfl, trivial⟩ (.nil _))))))))))))))))))))⟩
  · decide +kernel
  · decide +kernel
  · exact absurd own.2 (by decide +kernel)
  · decide +kernel
  · decide +kernel

theorem revote_run_second : ∃ s : VoterSystem hash,
    Steps (VoterTurn "a" "7" 5 id) .empty acts s ∧
    record id s.accepted (5 : Fr) = some (second.choice, second.newHash) := by
  obtain ⟨s, run⟩ := acts_run
  exact ⟨s, run, revote_run run (by decide +kernel)⟩

end ThreeClicks

end Mootvote.Frontend
