import Mootvote.Relayer.Atomic

set_option autoImplicit false

namespace Mootvote.Relayer

open Shared SparseMerkle SmtCircom SmtCircom.SparseMerkleTree

/-- The await points of `relay_inner`. -/
inductive Phase where
  /-- `lock.lock().await`. -/
  | locking
  /-- `send_all_instructions(..).await`, with the guard. -/
  | sending (prevCount : Nat) (state : LoadedState)

structure Pending where
  req : RelayRequest
  phase : Phase

/-- Calls are numbered; `guards` says which one holds the mutex of a state. -/
structure Server where
  db : DB
  guards : StateKey → Option Nat
  calls : Nat → Option Pending
  returned : List RelayRequest

namespace Server

def fresh : Server where
  db _ _ := none
  guards _ := none
  calls _ := none
  returned := []

def set (s : Server) (id : Nat) (call : Option Pending) : Server :=
  { s with calls := Function.update s.calls id call }

def guard (s : Server) (key : StateKey) (holder : Option Nat) : Server :=
  { s with guards := Function.update s.guards key holder }

/-- What a call does from one await point to the next, or to its end. -/
inductive Turn (H : IdealHash Word) : Server → Nat → Server → Prop
  | arrive {s : Server} {id : Nat} {req : RelayRequest} (unused : s.calls id = none) :
      Turn H s id (s.set id (some { req, phase := .locking }))
  | send {s : Server} {id : Nat} {req : RelayRequest} {prevCount : Nat} {inputs : RelayInputs}
      {state : LoadedState} (waits : s.calls id = some { req, phase := .locking })
      (unlocked : s.guards req.key = none)
      (ready : prepare req (loadState s.db req.key []) = .ok (.ok (prevCount, inputs), state)) :
      Turn H s id ((s.set id (some { req, phase := .sending prevCount state })).guard req.key (some id))
  -- The trees, a limit or the prover refuse, or the client is gone.
  | refuse {s : Server} {id : Nat} {req : RelayRequest}
      (waits : s.calls id = some { req, phase := .locking }) : Turn H s id (s.set id none)
  -- The transaction, the trees or `db.write` fail.
  | fail {s : Server} {id : Nat} {req : RelayRequest} {prevCount : Nat} {state : LoadedState}
      (waits : s.calls id = some { req, phase := .sending prevCount state }) :
      Turn H s id ((s.set id none).guard req.key none)
  | commit {s : Server} {id : Nat} {req : RelayRequest} {prevCount : Nat} {state st : LoadedState}
      (waits : s.calls id = some { req, phase := .sending prevCount state })
      (recorded : record H req prevCount (state.onto s.db) = .ok (.ok (), st)) :
      Turn H s id { (s.set id none).guard req.key none with
        db := s.db.write st.uniqTree.batch, returned := s.returned ++ [req] }

end Server

def served (returned : List RelayRequest) (key : StateKey) (i : Word) : Nat :=
  returned.countP fun req => req.key = key ∧ idx req.nu = i

def committed (returned : List RelayRequest) (key : StateKey) (msgHash : Word) : Nat :=
  returned.countP fun req => req.key = key ∧ req.msgHash = msgHash

def quotaAt (t : SparseTree Word) (i : Word) : Nat := ((t.lookup i 0).map BitVec.toNat).getD 0

/-- The persisted trees of a state hold what the calls that returned `Ok` put there. -/
structure Tracks (H : IdealHash Word) (db : DB) (returned : List RelayRequest) (key : StateKey)
    (quota uniq : SparseTree Word) : Prop where
  quotaStores : Stores H stateDepth (loadState db key []).quotaTree quota
  uniqStores : Stores H stateDepth (loadState db key []).uniqTree uniq
  counted : ∀ i, quotaAt quota i = served returned key i
  bounded : ∀ i, served returned key i ≤ msgLimit
  stored : ∀ msgHash, uniq.lookup msgHash 0 = if committed returned key msgHash = 0 then none else some 1
  once : ∀ msgHash, committed returned key msgHash ≤ 1

section counts

variable (returned : List RelayRequest) (req : RelayRequest) (key : StateKey)

theorem served_append (i : Word) : served (returned ++ [req]) key i =
    served returned key i + if req.key = key ∧ idx req.nu = i then 1 else 0 := by
  simp [served, List.countP_append, List.countP_singleton]

theorem committed_append (msgHash : Word) : committed (returned ++ [req]) key msgHash =
    committed returned key msgHash + if req.key = key ∧ req.msgHash = msgHash then 1 else 0 := by
  simp [committed, List.countP_append, List.countP_singleton]

theorem committed_pos {returned : List RelayRequest} {req : RelayRequest} (member : req ∈ returned) :
    0 < committed returned req.key req.msgHash :=
  List.countP_pos_iff.2 ⟨req, member, by simp⟩

end counts

section tracks

variable {H : IdealHash Word} {db db' : DB} {returned : List RelayRequest} {key : StateKey}
  {quota uniq : SparseTree Word} {req : RelayRequest} {prevCount : Nat}

def Counts (quota : SparseTree Word) (req : RelayRequest) (prevCount : Nat) : Prop :=
  prevCount < msgLimit ∧
    (prevCount ≠ 0 → ∃ old, quota.lookup (idx req.nu) 0 = some old ∧ prevCount = old.toNat % 2 ^ 64)

theorem quotaAt_update {quota' : SparseTree Word} {i val : Word}
    (lookup : ∀ other, quota'.lookup other 0 = if other = i then some val else quota.lookup other 0)
    (other : Word) : quotaAt quota' other = if i = other then val.toNat else quotaAt quota other := by
  unfold quotaAt
  rw [lookup]
  by_cases same : i = other
  · simp [same]
  · simp [same, Ne.symm same]

namespace Tracks

theorem untouched (tracks : Tracks H db returned key quota uniq)
    (same : ∀ cf, RocksStore.Same cf key.serialize db db') :
    Tracks H db' returned key quota uniq :=
  { tracks with
    quotaStores := RocksStore.kept tracks.quotaStores (same _)
    uniqStores := RocksStore.kept tracks.uniqStores (same _) }

theorem append_other (tracks : Tracks H db returned key quota uniq) (other : req.key ≠ key) :
    Tracks H db (returned ++ [req]) key quota uniq where
  quotaStores := tracks.quotaStores
  uniqStores := tracks.uniqStores
  counted i := by simp [served_append, other, tracks.counted i]
  bounded i := by simpa [served_append, other] using tracks.bounded i
  stored msgHash := by simp [committed_append, other, tracks.stored msgHash]
  once msgHash := by simpa [committed_append, other] using tracks.once msgHash

theorem quotaAt_before (tracks : Tracks H db returned key quota uniq) {quota' : SparseTree Word}
    (counts : Counts quota req prevCount) (changed : QuotaChange req prevCount quota quota') :
    quotaAt quota (idx req.nu) = prevCount := by
  cases changed with
  | first zero done =>
      cases found : quota.lookup (idx req.nu) 0 with
      | none => simp [quotaAt, found, zero]
      | some old => cases (SparseTree.add_eq_none_of_lookup found).symm.trans done
  | again nonzero =>
      obtain ⟨old, found, count⟩ := counts.2 nonzero
      have value : quotaAt quota (idx req.nu) = old.toNat := by simp [quotaAt, found]
      have few : old.toNat ≤ 3 := by
        rw [← value, tracks.counted]
        exact tracks.bounded _
      omega

theorem quotaAt_after (tracks : Tracks H db returned key quota uniq) {quota' : SparseTree Word}
    (changed : QuotaChange req prevCount quota quota') (few : prevCount < msgLimit) (i : Word) :
    quotaAt quota' i = if idx req.nu = i then prevCount + 1 else quotaAt quota i := by
  have small : prevCount < 3 := few
  have count : (u64ToU256 (prevCount + 1)).toNat = prevCount + 1 := by
    rw [u64ToU256, BitVec.toNat_ofNat, Nat.mod_eq_of_lt (by omega)]
  have ordered := tracks.quotaStores.shaped.ordered
  cases changed with
  | first _ done => rw [quotaAt_update (SparseTree.lookup_add ordered done), count]
  | again _ _ done => rw [quotaAt_update (SparseTree.lookup_set ordered done), count]

theorem append {st : LoadedState} (tracks : Tracks H db returned req.key quota uniq)
    (counts : Counts quota req prevCount)
    (recorded : record H req prevCount (loadState db req.key []) = .ok (.ok (), st)) :
    ∃ quota' uniq', Tracks H (db.write st.uniqTree.batch) (returned ++ [req]) req.key quota' uniq' ∧
      ∀ other, other ≠ req.key → ∀ cf,
        RocksStore.Same cf other.serialize db (db.write st.uniqTree.batch) := by
  obtain ⟨quota', uniq', changed, added, after⟩ := recorded_of_record tracks.quotaStores tracks.uniqStores recorded
  have before := tracks.quotaAt_before counts changed
  rw [tracks.counted] at before
  have new : committed returned req.key req.msgHash = 0 := by
    by_contra present
    have stored := tracks.stored req.msgHash
    rw [if_neg present] at stored
    cases (SparseTree.add_eq_none_of_lookup stored).symm.trans added
  refine ⟨quota', uniq', ⟨after.quota, after.uniq, fun i => ?_, fun i => ?_, fun msgHash => ?_,
    fun msgHash => ?_⟩, after.others⟩
  · rw [tracks.quotaAt_after changed counts.1, served_append]
    by_cases same : idx req.nu = i
    · subst same
      simp [before]
    · simp [same, tracks.counted i]
  · rw [served_append]
    by_cases same : idx req.nu = i
    · subst same
      simpa [before] using counts.1
    · simpa [same] using tracks.bounded i
  · rw [SparseTree.lookup_add tracks.uniqStores.shaped.ordered added, committed_append, tracks.stored]
    by_cases same : req.msgHash = msgHash
    · simp [same]
    · simp [same, Ne.symm same]
  · rw [committed_append]
    by_cases same : req.msgHash = msgHash
    · subst same
      simp [new]
    · simpa [same] using tracks.once msgHash

end Tracks

end tracks

namespace Server

variable {H : IdealHash Word} {s s' : Server} {id : Nat} {key : StateKey}

structure Carries (s : Server) (id : Nat) (req : RelayRequest) (prevCount : Nat) (state : LoadedState)
    (quota : SparseTree Word) : Prop where
  guards : s.guards req.key = some id
  state : state.onto s.db = loadState s.db req.key []
  counts : Counts quota req prevCount

/-- The trees of a state are tracked, and the call that holds its guard has read them. -/
structure Consistent (H : IdealHash Word) (s : Server) (key : StateKey)
    (quota uniq : SparseTree Word) : Prop where
  tracks : Tracks H s.db s.returned key quota uniq
  carries : ∀ id req prevCount state, s.calls id = some { req, phase := .sending prevCount state } →
    req.key = key → s.Carries id req prevCount state quota

theorem Carries.untouched {req : RelayRequest} {prevCount : Nat} {state : LoadedState}
    {quota : SparseTree Word} (carries : s.Carries id req prevCount state quota)
    (guards : s'.guards req.key = s.guards req.key)
    (same : ∀ cf, RocksStore.Same cf req.key.serialize s.db s'.db) :
    s'.Carries id req prevCount state quota where
  guards := guards.trans carries.guards
  state := by
    have reread : state.onto s'.db = (state.onto s.db).onto s'.db := rfl
    rw [reread, carries.state, onto_same same]
  counts := carries.counts

def Sound (H : IdealHash Word) (s : Server) : Prop := ∀ key, ∃ quota uniq, s.Consistent H key quota uniq

theorem Sound.kept (sound : s.Sound H) : Kept H s.db := by
  intro key
  obtain ⟨quota, uniq, consistent⟩ := sound key
  exact ⟨⟨quota, consistent.tracks.quotaStores⟩, uniq, consistent.tracks.uniqStores⟩

theorem calls_set {call : Option Pending} {other : Nat} {found : Pending}
    (waits : (s.set id call).calls other = some found) :
    other = id ∧ call = some found ∨ other ≠ id ∧ s.calls other = some found := by
  by_cases same : other = id
  · subst same
    exact .inl ⟨rfl, by simpa [set] using waits⟩
  · exact .inr ⟨same, by simpa [set, same] using waits⟩

theorem Sound.set (sound : s.Sound H) {call : Option Pending} (waiting : ∀ req prevCount state,
    call ≠ some { req, phase := .sending prevCount state }) : (s.set id call).Sound H := by
  intro key
  obtain ⟨quota, uniq, consistent⟩ := sound key
  refine ⟨quota, uniq, consistent.tracks, fun other req prevCount state waits own => ?_⟩
  rcases calls_set waits with ⟨_, ends⟩ | ⟨_, waits⟩
  · exact absurd ends (waiting req prevCount state)
  · exact (consistent.carries other req prevCount state waits own).untouched rfl fun _ _ => rfl

theorem Sound.alone (sound : s.Sound H) (guarded : s.guards key = none ∨ s.guards key = some id)
    {other : Nat} (different : other ≠ id) {req : RelayRequest} {prevCount : Nat} {state : LoadedState}
    (waits : s.calls other = some { req, phase := .sending prevCount state }) : req.key ≠ key := by
  rintro rfl
  obtain ⟨quota, uniq, consistent⟩ := sound req.key
  have holder := (consistent.carries other req prevCount state waits rfl).guards
  rcases guarded with free | held
  · cases free.symm.trans holder
  · cases held.symm.trans holder
    exact different rfl

theorem Sound.move (sound : s.Sound H) {call : Option Pending} {holder : Option Nat}
    (guarded : s.guards key = none ∨ s.guards key = some id)
    (calls : s'.calls = Function.update s.calls id call)
    (guards : s'.guards = Function.update s.guards key holder)
    (own : ∃ quota uniq, Tracks H s'.db s'.returned key quota uniq ∧ ∀ req prevCount state,
      call = some { req, phase := .sending prevCount state } →
        req.key = key ∧ s'.Carries id req prevCount state quota)
    (others : ∀ other quota uniq, other ≠ key → Tracks H s.db s.returned other quota uniq →
      Tracks H s'.db s'.returned other quota uniq)
    (same : ∀ other, other ≠ key → ∀ cf, RocksStore.Same cf other.serialize s.db s'.db) : s'.Sound H := by
  have moved {other : Nat} {found : Pending} (waits : s'.calls other = some found) :
      other = id ∧ call = some found ∨ other ≠ id ∧ s.calls other = some found :=
    calls_set (s := s) (by rw [Server.set, ← calls]; exact waits)
  intro other
  by_cases this : other = key
  · subst this
    obtain ⟨quota, uniq, tracks, carries⟩ := own
    refine ⟨quota, uniq, tracks, fun i req prevCount state waits own => ?_⟩
    rcases moved waits with ⟨rfl, sent⟩ | ⟨different, waits⟩
    · exact (carries req prevCount state sent).2
    · exact absurd own (sound.alone guarded different waits)
  · obtain ⟨quota, uniq, consistent⟩ := sound other
    refine ⟨quota, uniq, others other quota uniq this consistent.tracks,
      fun i req prevCount state waits own' => ?_⟩
    rcases moved waits with ⟨rfl, sent⟩ | ⟨_, waits⟩
    · obtain ⟨_, _, _, carries⟩ := own
      exact absurd (own'.symm.trans (carries req prevCount state sent).1) this
    · have before := consistent.carries i req prevCount state waits own'
      refine before.untouched ?_ (own' ▸ same other this)
      rw [guards, own', Function.update_of_ne this]

theorem Sound.turn (sound : s.Sound H) (turn : Turn H s id s') :
    s'.Sound H ∧ ∀ other, (∀ call, s.calls id = some call → call.req.key ≠ other) →
      ∀ cf, RocksStore.Same cf other.serialize s.db s'.db := by
  have unwritten : ∀ cf other, RocksStore.Same cf other s.db s.db := fun _ _ _ => rfl
  cases turn with
  | arrive => exact ⟨sound.set nofun, fun _ _ _ => unwritten _ _⟩
  | refuse => exact ⟨sound.set nofun, fun _ _ _ => unwritten _ _⟩
  | @send req prevCount inputs state waits unlocked ready =>
      refine ⟨?_, fun _ _ _ => unwritten _ _⟩
      obtain ⟨quota, uniq, consistent⟩ := sound req.key
      obtain ⟨rfl, prepared⟩ := prepare_spec sound.kept ready
      have counts : Counts quota req prevCount :=
        ⟨prepared.below, prevCount_read sound.kept consistent.tracks.quotaStores ready⟩
      refine sound.move (.inl unlocked) rfl rfl ⟨quota, uniq, consistent.tracks, ?_⟩
        (fun _ _ _ _ tracks => tracks) fun _ _ cf => unwritten cf _
      intro found count loaded sent
      cases sent
      exact ⟨rfl, Function.update_self _ _ _, rfl, counts⟩
  | @fail req prevCount state waits =>
      refine ⟨?_, fun _ _ _ => unwritten _ _⟩
      obtain ⟨quota, uniq, consistent⟩ := sound req.key
      have carries := consistent.carries id req prevCount state waits rfl
      exact sound.move (.inr carries.guards) rfl rfl ⟨quota, uniq, consistent.tracks, nofun⟩
        (fun _ _ _ _ tracks => tracks) fun _ _ cf => unwritten cf _
  | @commit req prevCount state st waits recorded =>
      obtain ⟨quota, uniq, consistent⟩ := sound req.key
      have carries := consistent.carries id req prevCount state waits rfl
      rw [carries.state] at recorded
      obtain ⟨quota', uniq', tracks, apart⟩ := consistent.tracks.append carries.counts recorded
      refine ⟨?_, fun other elsewhere => apart other (elsewhere _ waits).symm⟩
      refine sound.move (.inr carries.guards) rfl rfl ⟨quota', uniq', tracks, nofun⟩ ?_ apart
      intro other quota uniq different tracks
      exact (tracks.untouched (apart other different)).append_other different.symm

theorem fresh_sound : fresh.Sound H := by
  intro key
  refine ⟨.empty, .empty, ⟨?_, ?_, fun i => rfl, fun i => Nat.zero_le _, fun h => rfl, fun h => Nat.zero_le _⟩,
    nofun⟩
  · exact RocksStore.stores_new H stateDepth _ _
  · exact RocksStore.stores_new H stateDepth _ _

theorem sound_of_run {ids : List Nat} (run : Steps (Turn H) fresh ids s) : s.Sound H :=
  run.invariant (I := fun _ s => s.Sound H) fresh_sound fun _ _ _ _ _ sound turn => (sound.turn turn).1

end Server

/-- However the calls of `relay_inner` interleave, the persisted trees of a state count the calls that
returned `Ok` for it, and a call writes to the trees of its own state only. -/
theorem relay_loses_no_update {H : IdealHash Word} {s : Server} {ids : List Nat}
    (run : Steps (Server.Turn H) .fresh ids s) :
    (∀ key, ∃ quota uniq, Stores H stateDepth (loadState s.db key []).quotaTree quota ∧
      Stores H stateDepth (loadState s.db key []).uniqTree uniq ∧
      (∀ i, quotaAt quota i = served s.returned key i ∧ served s.returned key i ≤ msgLimit) ∧
      ∀ req ∈ s.returned, req.key = key →
        uniq.lookup req.msgHash 0 = some 1 ∧ committed s.returned key req.msgHash = 1) ∧
    ∀ id s', Server.Turn H s id s' → ∀ other,
      (∀ call, s.calls id = some call → call.req.key ≠ other) →
        ∀ cf, RocksStore.Same cf other.serialize s.db s'.db := by
  have sound := Server.sound_of_run run
  refine ⟨fun key => ?_, fun id s' turn => (sound.turn turn).2⟩
  obtain ⟨quota, uniq, ⟨tracks, _⟩⟩ := sound key
  refine ⟨quota, uniq, tracks.quotaStores, tracks.uniqStores,
    fun i => ⟨tracks.counted i, tracks.bounded i⟩, ?_⟩
  rintro req member rfl
  have once : committed s.returned req.key req.msgHash = 1 :=
    Nat.le_antisymm (tracks.once _) (committed_pos member)
  refine ⟨?_, once⟩
  rw [tracks.stored, once]
  rfl

namespace FirstRequest

theorem relay_loses_no_update_twice : ∃ s, s.returned = [request 5] ∧
    Steps (Server.Turn (wordHash hash)) .fresh [0, 1, 0, 0, 1] s ∧
    (∀ key, ∃ quota uniq, Stores (wordHash hash) stateDepth (loadState s.db key []).quotaTree quota ∧
      Stores (wordHash hash) stateDepth (loadState s.db key []).uniqTree uniq ∧
      (∀ i, quotaAt quota i = served s.returned key i ∧ served s.returned key i ≤ msgLimit) ∧
      ∀ req ∈ s.returned, req.key = key →
        uniq.lookup req.msgHash 0 = some 1 ∧ committed s.returned key req.msgHash = 1) ∧
    ∀ id s', Server.Turn (wordHash hash) s id s' → ∀ other,
      (∀ call, s.calls id = some call → call.req.key ≠ other) →
        ∀ cf, RocksStore.Same cf other.serialize s.db s'.db := by
  obtain ⟨_, st, _, recorded, _⟩ := landing_consistent.records landing_flies rfl
  have run : Steps (Server.Turn (wordHash hash)) .fresh [0, 1, 0, 0, 1] _ :=
    .cons (@Server.Turn.arrive _ _ _ (request 5) rfl) <| .cons (@Server.Turn.arrive _ _ _ (request 5) rfl) <|
    .cons (.send rfl rfl (ready 5)) <| .cons (.commit rfl recorded) <| .cons (.refuse rfl) (.nil _)
  exact ⟨_, rfl, run, relay_loses_no_update run⟩

end FirstRequest

end Mootvote.Relayer
