import Mootvote.Census.Server

set_option autoImplicit false

namespace Mootvote.Census

open Shared

section rows

def MemberRow.Invited (r : MemberRow) : Prop := r.invite.isSome ∧ r.pubX = none ∧ r.pubY = none

def MemberRow.Joined (r : MemberRow) : Prop := r.invite = none ∧ r.pubX.isSome ∧ r.pubY.isSome

theorem invited_invited (id censusId : Int) (name : String) (token : Word) :
    (invited id censusId name token).Invited := ⟨rfl, rfl, rfl⟩

theorem MemberRow.joined_join (r : MemberRow) (actor : BjjActor) : (r.join actor).Joined := ⟨rfl, rfl, rfl⟩

theorem MemberRow.Joined.not_invited {r : MemberRow} (joined : r.Joined) : ¬r.Invited := by
  rintro ⟨invite, _⟩
  rw [joined.1] at invite
  cases invite

def CreatedBy (db : Db) (censusId : Int) (actor : BjjActor) : Prop :=
  ∃ c ∈ db.censuses, c.id = censusId ∧ c.creatorX = actor.pubX ∧ c.creatorY = actor.pubY

theorem CreatedBy.mono {db db' : Db} {censusId : Int} {actor : BjjActor}
    (created : CreatedBy db censusId actor)
    (kept : db.censuses ⊆ db'.censuses) : CreatedBy db' censusId actor := by
  obtain ⟨c, member, rest⟩ := created
  exact ⟨c, kept member, rest⟩

theorem createdBy_of_checkCreator {db : Db} {actor : BjjActor} {censusId : Int} {refusal : String}
    {c : CensusRow}
    (checked : checkCreator db actor censusId refusal = .ok c) : CreatedBy db censusId actor := by
  unfold checkCreator at checked
  split at checked
  · cases checked
  case h_2 c' found =>
    split_ifs at checked with same
    rw [sameKey, Bool.and_eq_true, decide_eq_true_eq, decide_eq_true_eq] at same
    exact ⟨c', List.mem_of_find?_eq_some found, by simpa using List.find?_some found,
      same.1.symm, same.2.symm⟩

end rows

section statements

theorem Db.checked_eq_some {db db' : Db} (done : db.checked = some db') : db' = db ∧ db.Constraints := by
  unfold checked at done
  split_ifs at done with kept
  exact ⟨(Option.some.inj done).symm, kept⟩

theorem Db.Constraints.of_tables {db db' : Db} (constraints : db.Constraints)
    (censuses : db'.censuses = db.censuses)
    (members : db'.members = db.members) : db'.Constraints := by
  obtain ⟨censusIds, memberIds, references, invites, keys⟩ := constraints
  rw [← members] at memberIds references invites keys
  rw [← censuses] at censusIds references
  exact ⟨censusIds, memberIds, references, invites, keys⟩

theorem mem_update {members : List MemberRow} {actor : BjjActor} {memberId censusId : Int} {token : Word}
    {r' : MemberRow} : r' ∈ (members.map fun r : MemberRow =>
      if Claimable memberId censusId token r then r.join actor else r) ↔
      ∃ r ∈ members, (Claimable memberId censusId token r ∧ r' = r.join actor) ∨
        (¬Claimable memberId censusId token r ∧ r' = r) := by
  rw [List.mem_map]
  constructor
  · rintro ⟨r, member, rfl⟩
    by_cases taken : Claimable memberId censusId token r
    · exact ⟨r, member, .inl ⟨taken, if_pos taken⟩⟩
    · exact ⟨r, member, .inr ⟨taken, if_neg taken⟩⟩
  · rintro ⟨r, member, ⟨taken, rfl⟩ | ⟨other, rfl⟩⟩
    · exact ⟨_, member, if_pos taken⟩
    · exact ⟨_, member, if_neg other⟩

theorem claimMember_cases (db : Db) (actor : BjjActor) (censusId memberId : Int) (token : List Char) :
    (claimMember db actor censusId memberId token).2 = db ∨
    ∃ tok db', parseToken token = .ok tok ∧ db.updateMember actor memberId censusId tok = some db' ∧
      (claimMember db actor censusId memberId token).2 = db' := by
  unfold claimMember
  split
  · exact .inl rfl
  case h_2 tok parsed =>
    split
    · exact .inl rfl
    case h_2 db' updated =>
      refine .inr ⟨tok, db', parsed, updated, ?_⟩
      split_ifs <;> rfl

theorem claimMember_of_updated {db db' : Db} {actor : BjjActor} {censusId memberId : Int} {text : List Char}
    {token : Word} (parsed : parseToken text = .ok token)
    (updated : db.updateMember actor memberId censusId token = some db') :
    (claimMember db actor censusId memberId text).2 = db' := by
  simp only [claimMember, parsed, updated]
  split_ifs <;> rfl

end statements

section invariant

variable {env : Env}

def Call.rows : Call env → List MemberRow
  | .creating _ _ rows _ => rows
  | .adding .. | .removing .. => []

def System.pending (s : System env) (i : Nat) : List MemberRow := (s.calls i).elim [] Call.rows

/-- A call passed the check of the creator, or creates the census itself. -/
def Call.Entitled (db : Db) : Call env → Prop
  | .creating r census rows _ =>
      census.creatorX = r.actor.pubX ∧ census.creatorY = r.actor.pubY ∧ ∀ row ∈ rows, row.censusId = census.id
  | .adding r censusId _ => CreatedBy db censusId r.actor
  | .removing r censusId _ => CreatedBy db censusId r.actor

structure Consistent (s : System env) : Prop where
  constraints : s.db.Constraints
  shaped : ∀ r ∈ s.db.members, r.Invited ∨ r.Joined
  below : ∀ r ∈ s.db.members, r.id < s.db.nextMemberId
  invited : ∀ i, ∀ row ∈ s.pending i, row.Invited ∧ row.id < s.db.nextMemberId
  apart : ∀ i, ∀ row ∈ s.pending i, ∀ r ∈ s.db.members, r.id ≠ row.id
  disjoint : ∀ i j, i ≠ j → ∀ row ∈ s.pending i, ∀ row' ∈ s.pending j, row.id ≠ row'.id
  entitled : ∀ i call, s.calls i = some call → call.Entitled s.db

theorem Call.Entitled.mono {db db' : Db} {call : Call env} (entitled : call.Entitled db)
    (kept : db.censuses ⊆ db'.censuses) : call.Entitled db' := by
  cases call with
  | creating => exact entitled
  | adding => exact CreatedBy.mono entitled kept
  | removing => exact CreatedBy.mono entitled kept

theorem System.pending_set (s : System env) (i j : Nat) (call : Option (Call env)) :
    (s.set i call).pending j = if j = i then call.elim [] Call.rows else s.pending j := by
  simp only [pending, set, Function.update_apply]
  split_ifs <;> rfl

theorem System.calls_set (s : System env) (i j : Nat) (call : Option (Call env)) :
    (s.set i call).calls j = if j = i then call else s.calls j := Function.update_apply ..

@[simp] theorem System.pending_store (s : System env) (db : Db) (i : Nat) : (s.store db).pending i = s.pending i :=
  rfl

@[simp] theorem System.set_db (s : System env) (i : Nat) (call : Option (Call env)) :
    (s.set i call).db = s.db := rfl

theorem pending_of_waits {s : System env} {i : Nat} {call : Call env} (waits : s.calls i = some call) :
    s.pending i = call.rows := by
  rw [System.pending, waits]
  rfl

namespace Consistent

variable {s : System env}

theorem fresh : Consistent (@System.fresh env) where
  constraints := by
    refine ⟨?_, ?_, ?_, ?_, ?_⟩ <;> simp [System.fresh]
  shaped := by simp [System.fresh]
  below := by simp [System.fresh]
  invited := by simp [System.fresh, System.pending]
  apart := by simp [System.fresh, System.pending]
  disjoint := by simp [System.fresh, System.pending]
  entitled := by simp [System.fresh]

theorem call (consistent : Consistent s) (i : Nat) (call : Option (Call env))
    (empty : call.elim [] Call.rows = [])
    (entitled : ∀ c, call = some c → c.Entitled s.db) : Consistent (s.set i call) where
  constraints := consistent.constraints
  shaped := consistent.shaped
  below := consistent.below
  invited j row member := by
    rw [s.pending_set, empty] at member
    split_ifs at member
    · cases member
    · exact consistent.invited j row member
  apart j row member := by
    rw [s.pending_set, empty] at member
    split_ifs at member
    · cases member
    · exact consistent.apart j row member
  disjoint j k other row member row' member' := by
    rw [s.pending_set, empty] at member member'
    split_ifs at member member'
    all_goals first | cases member | cases member' | skip
    exact consistent.disjoint j k other row member row' member'
  entitled j c found := by
    rw [s.calls_set] at found
    split_ifs at found
    · exact entitled c found
    · exact consistent.entitled j c found

theorem clear (consistent : Consistent s) (i : Nat) : Consistent (s.set i none) := by
  refine consistent.call i none rfl fun c same => ?_
  cases same

theorem advance {db : Db} (consistent : Consistent s) (censuses : db.censuses = s.db.censuses)
    (members : db.members = s.db.members) (grows : s.db.nextMemberId ≤ db.nextMemberId) :
    Consistent (s.store db) where
  constraints := consistent.constraints.of_tables censuses members
  shaped r member := consistent.shaped r (members ▸ member)
  below r member := lt_of_lt_of_le (consistent.below r (members ▸ member)) grows
  invited i row member := by
    obtain ⟨invited, below⟩ := consistent.invited i row member
    exact ⟨invited, lt_of_lt_of_le below grows⟩
  apart i row member r stored := consistent.apart i row member r (members ▸ stored)
  disjoint := consistent.disjoint
  entitled i call found := (consistent.entitled i call found).mono (by rw [← censuses]; exact fun _ => id)

theorem createMember {i : Nat} {r : Request env} {census : CensusRow} {rows : List MemberRow} {name : String}
    {names : List String} (consistent : Consistent s) (token : Word)
    (waits : s.calls i = some (.creating r census rows (name :: names))) :
    Consistent ((s.set i (some (.creating r census
      (rows ++ [Census.invited s.db.nextMemberId census.id name token]) names))).store
        { s.db with nextMemberId := s.db.nextMemberId + 1 }) := by
  have pending := pending_of_waits waits
  obtain ⟨creatorX, creatorY, own⟩ := consistent.entitled i _ waits
  -- The new row's id is above every id in use.
  have rows_of (j : Nat) (row : MemberRow) (member : row ∈ (s.set i (some (.creating r census
      (rows ++ [Census.invited s.db.nextMemberId census.id name token]) names))).pending j) :
      row ∈ s.pending j ∨ j = i ∧ row = Census.invited s.db.nextMemberId census.id name token := by
    rw [s.pending_set] at member
    split_ifs at member with same
    · rw [same, pending]
      rcases List.mem_append.1 member with old | new
      · exact .inl old
      · exact .inr ⟨rfl, List.mem_singleton.1 new⟩
    · exact .inl member
  refine ⟨consistent.constraints.of_tables rfl rfl, consistent.shaped, fun r member => ?_,
    fun j row member => ?_,
    fun j row member r stored => ?_, fun j k other row member row' member' => ?_, fun j call found => ?_⟩
  · have below := consistent.below r member
    change r.id < s.db.nextMemberId + 1
    omega
  · change row.Invited ∧ row.id < s.db.nextMemberId + 1
    rcases rows_of j row member with old | ⟨_, rfl⟩
    · obtain ⟨invited, below⟩ := consistent.invited j row old
      exact ⟨invited, by omega⟩
    · exact ⟨invited_invited .., Int.lt_succ _⟩
  · rcases rows_of j row member with old | ⟨_, rfl⟩
    · exact consistent.apart j row old r stored
    · exact ne_of_lt (consistent.below r stored)
  · rcases rows_of j row member with old | ⟨rfl, rfl⟩
    · rcases rows_of k row' member' with old' | ⟨rfl, rfl⟩
      · exact consistent.disjoint j k other row old row' old'
      · exact ne_of_lt (consistent.invited j row old).2
    · rcases rows_of k row' member' with old' | ⟨rfl, rfl⟩
      · exact (ne_of_lt (consistent.invited k row' old').2).symm
      · exact absurd rfl other
  · change (s.set i _).calls j = some call at found
    rw [s.calls_set] at found
    split_ifs at found
    · cases found
      refine ⟨creatorX, creatorY, fun row member => ?_⟩
      rcases List.mem_append.1 member with old | new
      · exact own row old
      · rw [List.mem_singleton.1 new]
        rfl
    · exact consistent.entitled j call found

theorem append {db : Db} {rows : List MemberRow} (consistent : Consistent s) (constraints : db.Constraints)
    (censuses : s.db.censuses ⊆ db.censuses) (members : db.members = s.db.members ++ rows)
    (grows : s.db.nextMemberId ≤ db.nextMemberId)
    (new : ∀ row ∈ rows, row.Invited ∧ row.id < db.nextMemberId)
    (apart : ∀ i, ∀ row ∈ s.pending i, ∀ r ∈ rows, r.id ≠ row.id) : Consistent (s.store db) where
  constraints := constraints
  shaped r member := by
    change r ∈ db.members at member
    rw [members, List.mem_append] at member
    exact member.elim (consistent.shaped r) fun member => .inl (new r member).1
  below r member := by
    change r ∈ db.members at member
    rw [members, List.mem_append] at member
    exact member.elim (fun old => lt_of_lt_of_le (consistent.below r old) grows) fun member =>
      (new r member).2
  invited i row member := by
    obtain ⟨invited, below⟩ := consistent.invited i row member
    exact ⟨invited, lt_of_lt_of_le below grows⟩
  apart i row member r stored := by
    change r ∈ db.members at stored
    rw [members, List.mem_append] at stored
    exact stored.elim (consistent.apart i row member r) (apart i row member r)
  disjoint := consistent.disjoint
  entitled i call found := (consistent.entitled i call found).mono censuses

theorem createCommit {i : Nat} {r : Request env} {census : CensusRow} {rows : List MemberRow} {db : Db}
    (consistent : Consistent s) (waits : s.calls i = some (.creating r census rows []))
    (inserted : s.db.insertCensus census rows = some db) : Consistent ((s.set i none).store db) := by
  have pending := pending_of_waits waits
  obtain ⟨rfl, constraints⟩ := Db.checked_eq_some inserted
  refine (consistent.clear i).append constraints (List.subset_append_left _ _) rfl le_rfl
    (fun row member => consistent.invited i row (pending ▸ member)) fun j row member r stored => ?_
  rw [s.pending_set] at member
  split_ifs at member with same
  · cases member
  · exact (consistent.disjoint j i same row member r (pending ▸ stored)).symm

theorem insertMember {i : Nat} {censusId : Int} {name : String} {token : Word} {db : Db}
    (consistent : Consistent s) (inserted : s.db.insertMember censusId name token = some db) :
    Consistent ((s.set i none).store db) := by
  obtain ⟨rfl, constraints⟩ := Db.checked_eq_some inserted
  have cleared := consistent.clear i
  refine cleared.append constraints (fun _ => id) rfl (le_of_lt (Int.lt_succ _)) (fun row member => ?_)
    fun j row member r stored => ?_
  · rw [List.mem_singleton.1 member]
    exact ⟨invited_invited .., Int.lt_succ _⟩
  · rw [List.mem_singleton.1 stored]
    exact (ne_of_lt (cleared.invited j row member).2).symm

theorem deleteMember (consistent : Consistent s) (memberId censusId : Int) :
    Consistent (s.store (s.db.deleteMember memberId censusId)) where
  constraints :=
    { censusIds := consistent.constraints.censusIds
      memberIds := consistent.constraints.memberIds.filter _
      references r member := consistent.constraints.references r (List.mem_of_mem_filter member)
      invites := consistent.constraints.invites.filter _
      keys := consistent.constraints.keys.filter _ }
  shaped r member := consistent.shaped r (List.mem_of_mem_filter member)
  below r member := consistent.below r (List.mem_of_mem_filter member)
  invited := consistent.invited
  apart i row member r stored := consistent.apart i row member r (List.mem_of_mem_filter stored)
  disjoint := consistent.disjoint
  entitled := consistent.entitled

theorem updateMember {actor : BjjActor} {memberId censusId : Int} {token : Word} {db : Db}
    (consistent : Consistent s)
    (updated : s.db.updateMember actor memberId censusId token = some db) : Consistent (s.store db) := by
  obtain ⟨rfl, constraints⟩ := Db.checked_eq_some updated
  refine ⟨constraints, fun r member => ?_, fun r member => ?_, consistent.invited,
    fun i row pending r stored => ?_,
    consistent.disjoint, fun i call found => (consistent.entitled i call found).mono fun _ => id⟩
  · obtain ⟨old, stored, ⟨_, rfl⟩ | ⟨_, rfl⟩⟩ := mem_update.1 member
    · exact .inr (old.joined_join actor)
    · exact consistent.shaped _ stored
  · obtain ⟨old, stored, ⟨_, rfl⟩ | ⟨_, rfl⟩⟩ := mem_update.1 member
    · exact consistent.below old stored
    · exact consistent.below _ stored
  · obtain ⟨old, member, ⟨_, rfl⟩ | ⟨_, rfl⟩⟩ := mem_update.1 stored
    · exact consistent.apart i row pending old member
    · exact consistent.apart i row pending _ member

theorem step {act : Act env} {s' : System env} (consistent : Consistent s) (step : System.Step s act s') :
    Consistent s' := by
  cases step with
  | createCensus r body unused =>
      refine (consistent.call _ _ rfl fun c same => ?_).advance rfl rfl le_rfl
      cases same
      exact ⟨rfl, rfl, nofun⟩
  | createMember token waits => exact consistent.createMember token waits
  | createCommit waits inserted => exact consistent.createCommit waits inserted
  | addMember name unused checked =>
      refine consistent.call _ _ rfl fun c same => ?_
      cases same
      exact createdBy_of_checkCreator checked
  | insertMember waits inserted => exact consistent.insertMember inserted
  | removeMember memberId unused checked =>
      refine consistent.call _ _ rfl fun c same => ?_
      cases same
      exact createdBy_of_checkCreator checked
  | deleteMember waits => exact (consistent.clear _).deleteMember _ _
  | claimMember r censusId memberId token =>
      rcases claimMember_cases s.db r.actor censusId memberId token with same | ⟨tok, db, _, updated, same⟩
      · rw [same]
        exact consistent
      · rw [same]
        exact consistent.updateMember updated
  | drop i => exact consistent.clear i
  | burn n => exact consistent.advance rfl rfl (by simp)

theorem of_run {acts : List (Act env)} (run : Steps System.Step System.fresh acts s) : Consistent s :=
  run.invariant (I := fun _ s => Consistent s) fresh fun _ _ _ _ _ consistent next => consistent.step next

end Consistent

end invariant

section authorised

variable {env : Env}

/-- What a statement may do to the members of a census. -/
structure Authorised (s : System env) (act : Act env) (s' : System env) : Prop where
  creators : s.db.censuses ⊆ s'.db.censuses
  appears : ∀ r ∈ s'.db.members, (∀ r₀ ∈ s.db.members, r₀.id ≠ r.id) → r.Invited ∧
    ((∃ i q census rows, act = .createCommit i ∧ s.calls i = some (.creating q census rows []) ∧ r ∈ rows ∧
      CreatedBy s'.db r.censusId q.actor) ∨
    ∃ i token q name, act = .insertMember i token ∧ s.calls i = some (.adding q r.censusId name) ∧
      CreatedBy s'.db r.censusId q.actor)
  disappears : ∀ r ∈ s.db.members, (∀ r' ∈ s'.db.members, r'.id ≠ r.id) →
    ∃ i q, act = .deleteMember i ∧ s.calls i = some (.removing q r.censusId r.id) ∧
      CreatedBy s'.db r.censusId q.actor
  changes : ∀ r ∈ s.db.members, ∀ r' ∈ s'.db.members, r'.id = r.id → r' = r ∨
    (r.Invited ∧ r'.Joined ∧ ∃ q text token, act = .claimMember q r.censusId r.id text ∧
      parseToken text = .ok token ∧ r.invite = some token ∧ r' = r.join q.actor)

theorem Db.Constraints.same_row {db : Db} (constraints : db.Constraints) {r r' : MemberRow}
    (left : r ∈ db.members)
    (right : r' ∈ db.members) (same : r'.id = r.id) : r' = r :=
  List.inj_on_of_nodup_map (List.pairwise_map.2 constraints.memberIds) right left same

theorem Authorised.of_same {s s' : System env} {act : Act env} (consistent : Consistent s)
    (censuses : s.db.censuses ⊆ s'.db.censuses) (members : s'.db.members = s.db.members) :
    Authorised s act s' where
  creators := censuses
  appears _ member absent := absurd rfl (absent _ (members ▸ member))
  disappears _ member gone := absurd rfl (gone _ (members ▸ member))
  changes _ member _ member' same := .inl (consistent.constraints.same_row member (members ▸ member') same)

theorem Authorised.of_append {s s' : System env} {act : Act env} {rows : List MemberRow}
    (after : Consistent s')
    (censuses : s.db.censuses ⊆ s'.db.censuses) (members : s'.db.members = s.db.members ++ rows)
    (invited : ∀ r ∈ rows, r.Invited)
    (entitled : ∀ r ∈ rows,
      (∃ i q census rows, act = .createCommit i ∧ s.calls i = some (.creating q census rows []) ∧ r ∈ rows ∧
        CreatedBy s'.db r.censusId q.actor) ∨
      ∃ i token q name, act = .insertMember i token ∧ s.calls i = some (.adding q r.censusId name) ∧
        CreatedBy s'.db r.censusId q.actor) : Authorised s act s' where
  creators := censuses
  appears r member absent := by
    rw [members, List.mem_append] at member
    rcases member with old | new
    · exact absurd rfl (absent r old)
    · exact ⟨invited r new, entitled r new⟩
  disappears r member gone := absurd rfl (gone r (members ▸ List.mem_append_left _ member))
  changes _ member _ member' same :=
    .inl (after.constraints.same_row (members ▸ List.mem_append_left _ member) member' same)

theorem Authorised.of_delete {s s' : System env} {i : Nat} {q : Request env} {censusId memberId : Int}
    (consistent : Consistent s) (waits : s.calls i = some (.removing q censusId memberId))
    (db : s'.db = s.db.deleteMember memberId censusId) : Authorised s (.deleteMember i) s' where
  creators := by
    rw [db]
    exact fun _ => id
  appears r member absent := by
    rw [db] at member
    exact absurd rfl (absent r (List.mem_of_mem_filter member))
  disappears r member gone := by
    have own : r.id = memberId ∧ r.censusId = censusId := by
      by_contra other
      refine gone r ?_ rfl
      rw [db]
      exact List.mem_filter.2 ⟨member, decide_eq_true other⟩
    obtain ⟨rfl, rfl⟩ := own
    refine ⟨i, q, rfl, waits, ?_⟩
    rw [db]
    exact CreatedBy.mono (consistent.entitled i _ waits) fun _ => id
  changes r member r' member' same := by
    rw [db] at member'
    exact .inl (consistent.constraints.same_row member (List.mem_of_mem_filter member') same)

theorem Claimable.invited {s : System env} {memberId censusId : Int} {token : Word} {r : MemberRow}
    (consistent : Consistent s) (member : r ∈ s.db.members)
    (claimable : Claimable memberId censusId token r) :
    r.Invited := by
  rcases consistent.shaped r member with invited | joined
  · exact invited
  · have taken := claimable.2.2.2
    rw [Option.eq_none_iff_forall_ne_some] at taken
    obtain ⟨x, found⟩ := Option.isSome_iff_exists.1 joined.2.1
    exact absurd found (taken x)

theorem Authorised.of_update {s s' : System env} {q : Request env} {censusId memberId : Int}
    {text : List Char}
    {token : Word} {db : Db} (consistent : Consistent s) (parsed : parseToken text = .ok token)
    (updated : s.db.updateMember q.actor memberId censusId token = some db) (stored : s'.db = db) :
    Authorised s (.claimMember q censusId memberId text) s' := by
  obtain ⟨rfl, _⟩ := Db.checked_eq_some updated
  have members : s'.db.members = _ := congrArg Db.members stored
  refine ⟨?_, fun r member absent => ?_, fun r member gone => ?_, fun r member r' member' same => ?_⟩
  · rw [stored]
    exact fun _ => id
  · rw [members] at member
    obtain ⟨old, stored, ⟨_, rfl⟩ | ⟨_, rfl⟩⟩ := mem_update.1 member
    · exact absurd rfl (absent old stored)
    · exact absurd rfl (absent _ stored)
  · rw [members] at gone
    by_cases claimable : Claimable memberId censusId token r
    · exact absurd rfl (gone (r.join q.actor) (mem_update.2 ⟨r, member, .inl ⟨claimable, rfl⟩⟩))
    · exact absurd rfl (gone r (mem_update.2 ⟨r, member, .inr ⟨claimable, rfl⟩⟩))
  · rw [members] at member'
    obtain ⟨old, stored, ⟨claimable, rfl⟩ | ⟨_, rfl⟩⟩ := mem_update.1 member'
    · have own : old = r := consistent.constraints.same_row member stored same
      subst own
      have invited := claimable.invited consistent member
      obtain ⟨rfl, rfl, invite, _⟩ := claimable
      exact .inr ⟨invited, old.joined_join q.actor, q, text, token, rfl, parsed, invite, rfl⟩
    · exact .inl (consistent.constraints.same_row member stored same)

theorem Consistent.authorised {s s' : System env} {act : Act env} (consistent : Consistent s)
    (step : System.Step s act s') : Authorised s act s' := by
  have after := consistent.step step
  cases step with
  | createCensus | createMember | addMember | removeMember | drop | burn =>
      exact .of_same consistent (fun _ => id) rfl
  | @createCommit i q census rows db waits inserted =>
      obtain ⟨rfl, _⟩ := Db.checked_eq_some inserted
      obtain ⟨creatorX, creatorY, own⟩ := consistent.entitled i _ waits
      refine .of_append after (List.subset_append_left _ _) rfl
        (fun r member => (consistent.invited i r (pending_of_waits waits ▸ member)).1) fun r member => ?_
      exact .inl ⟨i, q, census, rows, rfl, waits, member, census, List.mem_append_right _ (by simp),
        (own r member).symm,
        creatorX, creatorY⟩
  | @insertMember i q censusId name token db waits inserted =>
      obtain ⟨rfl, _⟩ := Db.checked_eq_some inserted
      refine .of_append after (fun _ => id) rfl (fun r member => ?_) fun r member => ?_
      · rw [List.mem_singleton.1 member]
        exact invited_invited ..
      · rw [List.mem_singleton.1 member]
        exact .inr ⟨i, token, q, name, rfl, waits, CreatedBy.mono (consistent.entitled i _ waits) fun _ => id⟩
  | deleteMember waits => exact .of_delete consistent waits rfl
  | claimMember q censusId memberId text =>
      rcases claimMember_cases s.db q.actor censusId memberId text
        with same | ⟨token, db, parsed, updated, same⟩
      · exact .of_same consistent (by rw [same]; exact fun _ => id) (congrArg Db.members same)
      · exact .of_update consistent parsed updated same

end authorised

section once

variable {env : Env}

def Joins (m : Int) (s s' : System env) : Prop :=
  (∃ r ∈ s.db.members, r.id = m ∧ r.Invited) ∧ ∃ r' ∈ s'.db.members, r'.id = m ∧ r'.Joined

/-- A row with the id is joined, or was removed and never comes back. -/
structure Settled (m : Int) (s : System env) : Prop where
  used : m < s.db.nextMemberId
  committed : ∀ i, ∀ row ∈ s.pending i, row.id ≠ m
  joined : ∀ r ∈ s.db.members, r.id = m → r.Joined

theorem Joins.settled {m : Int} {s s' : System env} (joins : Joins m s s') (after : Consistent s') :
    Settled m s' := by
  obtain ⟨_, r', member, rfl, joined⟩ := joins
  refine ⟨after.below r' member, fun i row pending => (after.apart i row pending r' member).symm,
    fun r stored same => ?_⟩
  rw [after.constraints.same_row member stored same]
  exact joined

theorem Settled.step {m : Int} {s s' : System env} {act : Act env} (settled : Settled m s)
    (step : System.Step s act s') : Settled m s' := by
  have ⟨used, committed, joined⟩ := settled
  have cleared (i : Nat) (call : Option (Call env)) (empty : call.elim [] Call.rows = []) :
      ∀ j, ∀ row ∈ (s.set i call).pending j, row.id ≠ m := by
    intro j row member
    rw [s.pending_set, empty] at member
    split_ifs at member
    · cases member
    · exact committed j row member
  cases step with
  | createCensus r body unused => exact ⟨used, cleared _ _ rfl, joined⟩
  | @createMember i q census rows name names token waits =>
      refine ⟨by simp only [System.store]; omega, fun j row member => ?_, joined⟩
      rw [System.pending_store, s.pending_set] at member
      split_ifs at member
      · rcases List.mem_append.1 member with old | new
        · exact committed i row (pending_of_waits waits ▸ old)
        · rw [List.mem_singleton.1 new]
          exact (ne_of_lt used).symm
      · exact committed j row member
  | @createCommit i q census rows db waits inserted =>
      obtain ⟨rfl, _⟩ := Db.checked_eq_some inserted
      refine ⟨used, cleared _ _ rfl, fun r member same => ?_⟩
      rcases List.mem_append.1 member with old | new
      · exact joined r old same
      · exact absurd same (committed i r (pending_of_waits waits ▸ new))
  | addMember => exact ⟨used, cleared _ _ rfl, joined⟩
  | insertMember waits inserted =>
      obtain ⟨rfl, _⟩ := Db.checked_eq_some inserted
      refine ⟨by simp only [System.store]; omega, cleared _ _ rfl, fun r member same => ?_⟩
      rcases List.mem_append.1 member with old | new
      · exact joined r old same
      · rw [List.mem_singleton.1 new] at same
        exact absurd same (ne_of_lt used).symm
  | removeMember => exact ⟨used, cleared _ _ rfl, joined⟩
  | deleteMember waits =>
      exact ⟨used, cleared _ _ rfl, fun r member same => joined r (List.mem_of_mem_filter member) same⟩
  | claimMember q censusId memberId text =>
      rcases claimMember_cases s.db q.actor censusId memberId text with same | ⟨token, db, _, updated, same⟩
      · rw [same]
        exact settled
      · obtain ⟨rfl, _⟩ := Db.checked_eq_some updated
        rw [same]
        refine ⟨used, committed, fun r member same => ?_⟩
        obtain ⟨old, stored, ⟨claimable, rfl⟩ | ⟨_, rfl⟩⟩ := mem_update.1 member
        · exact old.joined_join q.actor
        · exact joined _ stored same
  | drop i => exact ⟨used, cleared i none rfl, joined⟩
  | burn n => exact ⟨by simp only [System.store]; omega, committed, joined⟩

theorem Joins.once {m : Int} {s s₁ s₂ s₃ : System env} {act : Act env} {acts : List (Act env)}
    (joins : Joins m s s₁) (consistent : Consistent s) (first : System.Step s act s₁)
    (run : Steps System.Step s₁ acts s₂) : ¬Joins m s₂ s₃ := by
  rintro ⟨⟨r, member, same, invited⟩, _⟩
  have settled := run.invariant (I := fun _ s => Settled m s) (joins.settled (consistent.step first))
    fun _ _ _ _ _ settled next => settled.step next
  exact (settled.joined r member same).not_invited invited

end once

/-- Members come and go through the creator of their census and join once, with a key of their own. -/
theorem membership_authorised {env : Env} {s : System env} {acts : List (Act env)}
    (run : Steps System.Step System.fresh acts s) :
    (∀ r ∈ s.db.members, (r.Invited ∧ ¬r.Joined) ∨ (r.Joined ∧ ¬r.Invited)) ∧
    (s.db.members.Pairwise fun r r' => ¬SameKey r r') ∧
    (s.db.censuses.Pairwise fun c c' => c.id ≠ c'.id) ∧
    (∀ act s', System.Step s act s' → Authorised s act s') ∧
    ∀ memberId act s₁ later s₂ act' s₃, System.Step s act s₁ → Joins memberId s s₁ →
      Steps System.Step s₁ later s₂ → System.Step s₂ act' s₃ → ¬Joins memberId s₂ s₃ := by
  have consistent := Consistent.of_run run
  refine ⟨fun r member => ?_, consistent.constraints.keys, consistent.constraints.censusIds, fun _ _ step =>
    consistent.authorised step, fun _ _ _ _ _ _ _ first joins rest _ => joins.once consistent first rest⟩
  rcases consistent.shaped r member with invited | joined
  · exact .inl ⟨invited, fun joined => joined.not_invited invited⟩
  · exact .inr ⟨joined, joined.not_invited⟩

namespace TestVector

theorem parseHex32_bytes (w : Word) : parseHex32 (hexEncode w.bytes) = some w := by
  have length : (hexEncode w.bytes).length = 64 := by
    simp [hexEncode, List.length_flatMap]
  rw [parseHex32, if_pos length, hexFold_hexEncode]
  exact congrArg some (Word.ofBytes_bytes w)

def decimal (s : List Char) : Nat := s.foldl (fun n c => n * 10 + (c.toNat - '0'.toNat)) 0

theorem decimal_toDigits (n : Nat) : decimal (Nat.toDigits 10 n) = n := by
  have digit : ∀ d < 10, (Nat.digitChar d).toNat - '0'.toNat = d := by decide
  induction n using Nat.strong_induction_on with
  | _ n ih =>
      rw [Nat.toDigits_eq_if (by decide)]
      split
      case isTrue small => simpa [decimal] using digit n small
      case isFalse large =>
          have front := ih (n / 10) (by omega)
          rw [decimal] at front ⊢
          rw [List.foldl_append, front, List.foldl_cons, List.foldl_nil, digit _ (Nat.mod_lt n (by decide))]
          omega

def publicKey : Fr × Fr :=
  (9229531240475740265956875512374294167393085137488369755580333200945296237123,
    8364167114868939986456454121854073438982879570629316490143522109119596438902)

def env : Env where
  frFromStr s := if s.all Char.isDigit then some (decimal s : Fr) else none
  bigIntFromStr s := some (decimal s)
  verify pk _ _ := pk = publicKey
  poseidon xs := xs.sum

def headers (x y : Word) : HttpRequest where
  pubX := some (hexEncode x.bytes)
  pubY := some (hexEncode y.bytes)
  sigR8x := some ['1']
  sigR8y := some ['2']
  sigS := some ['3']
  ts := some ['0']

theorem frFromStr_toDigits (n : Nat) : env.frFromStr (Nat.toDigits 10 n) = some (n : Fr) := by
  have digits : (Nat.toDigits 10 n).all Char.isDigit = true :=
    List.all_eq_true.2 fun c member => Nat.isDigit_of_mem_toDigits (by decide) (by decide) member
  change (if (Nat.toDigits 10 n).all Char.isDigit then some (decimal (Nat.toDigits 10 n) : Fr) else none) = _
  rw [if_pos digits, decimal_toDigits]

theorem verified {x y : Word} (own : (Word.reduce x, Word.reduce y) = publicKey) :
    verifyBjj env 0 (headers x y) = .ok { pubX := x, pubY := y } := by
  have actor : extractActor (headers x y) = some { pubX := x, pubY := y } := by
    simp [extractActor, headers, parseHex32_bytes]
  have ts : extractTimestamp (headers x y) = some 0 := by rfl
  obtain ⟨sig, isSig⟩ : ∃ sig, extractSig env (headers x y) = some sig := ⟨_, rfl⟩
  obtain ⟨message, hashed⟩ : ∃ message, poseidonHash env
      [Program.u64ToU256 platformName, Program.u64ToU256 authDomain, Program.u64ToU256 0] =
        .ok message := ⟨_, rfl⟩
  rw [verifyBjj, actor, ts, isSig]
  have accepted : env.verify (Word.reduce x, Word.reduce y) sig message = true := decide_eq_true own
  simp only [orBadAuth, frFromStr_toDigits, bind, Except.bind]
  rw [if_neg (by decide), hashed]
  exact if_pos accepted

def x : Word := Word.ofFr publicKey.1

def y : Word := Word.ofFr publicKey.2

theorem own : (Word.reduce x, Word.reduce y) = publicKey := by
  rw [x, y, Word.reduce_ofFr, Word.reduce_ofFr]

def request : Request env :=
  { now := 0, req := headers x y, actor := { pubX := x, pubY := y }, verified := verified own }

def token : Word := 5

def census : CensusRow := { id := 1, title := "", description := none, creatorX := x, creatorY := y }

theorem checked_of {db : Db} (constraints : db.Constraints) : db.checked = some db := if_pos constraints

theorem constraints_of (rows : List MemberRow) (few : rows.length ≤ 1) (own : ∀ r ∈ rows, r.censusId = 1)
    (nextCensusId nextMemberId : Int) :
    Db.Constraints { censuses := [census], members := rows, nextCensusId, nextMemberId } := by
  have single : ∀ R : MemberRow → MemberRow → Prop, rows.Pairwise R := by
    match rows, few with
    | [], _ => exact fun _ => .nil
    | [r], _ => exact fun R => List.pairwise_singleton R r
  exact ⟨List.pairwise_singleton _ _, single _,
    fun r member => ⟨census, by simp, (own r member).symm⟩, single _,
    single _⟩

def acts : List (Act env) :=
  [.createCensus 0 request { title := "", description := none, members := none }, .createCommit 0,
    .addMember 0 request 1 "", .insertMember 0 token, .claimMember request 1 1 (hexEncode token.bytes)]

theorem parseToken_bytes (w : Word) : parseToken (hexEncode w.bytes) = .ok w := by
  rw [parseToken, parseHex32_bytes]

theorem run : ∃ s : System env, Steps System.Step System.fresh acts s ∧
    s.db.members = [(invited 1 1 "" token).join request.actor] := by
  have committed := checked_of (constraints_of [] (by simp) (by simp) 2 1)
  have added := checked_of (constraints_of [invited 1 1 "" token] (by simp) (by simp [invited]) 2 2)
  refine ⟨_, .cons (.createCensus request _ rfl) <| .cons (.createCommit rfl committed) <|
    .cons (.addMember "" rfl rfl) <| .cons (.insertMember rfl added) <| .cons (.claimMember request 1 1 _) (.nil _), ?_⟩
  have claimed : Db.updateMember ⟨[census], [invited 1 1 "" token], 2, 2⟩ request.actor 1 1 token =
      some ⟨[census], [(invited 1 1 "" token).join request.actor], 2, 2⟩ :=
    checked_of (constraints_of [(invited 1 1 "" token).join request.actor] (by simp)
      (by simp [invited, MemberRow.join]) 2 2)
  exact congrArg Db.members (claimMember_of_updated (parseToken_bytes token) claimed)

theorem membership_authorised_claim : ∃ s : System env, Steps System.Step System.fresh acts s ∧
    s.db.members = [(invited 1 1 "" token).join request.actor] ∧
    (∀ r ∈ s.db.members, (r.Invited ∧ ¬r.Joined) ∨ (r.Joined ∧ ¬r.Invited)) ∧
    (s.db.members.Pairwise fun r r' => ¬SameKey r r') ∧
    (s.db.censuses.Pairwise fun c c' => c.id ≠ c'.id) ∧
    (∀ act s', System.Step s act s' → Authorised s act s') ∧
    ∀ memberId act s₁ later s₂ act' s₃, System.Step s act s₁ → Joins memberId s s₁ →
      Steps System.Step s₁ later s₂ → System.Step s₂ act' s₃ → ¬Joins memberId s₂ s₃ := by
  obtain ⟨s, reached, joined⟩ := run
  exact ⟨s, reached, joined, membership_authorised reached⟩

end TestVector

end Mootvote.Census
