import Mootvote.Relayer.InStep

set_option autoImplicit false

/-!
# Requests in flight between the server and the chain

The chain and the server's database move at different moments of a request. Requests for
different states interleave; the lock of a state keeps a second request for it out.
-/

namespace Mootvote.Relayer

open Shared SparseMerkle SmtCircom SmtCircom.SparseMerkleTree Word

structure Flight where
  req : RelayRequest
  prevCount : Nat
  inputs : RelayInputs
  state : LoadedState
  landed : Bool

structure System where
  db : DB
  chain : StateKey → Option Program.RelayerState
  flights : StateKey → Option Flight

def System.fly (s : System) (key : StateKey) (flight : Option Flight) : System :=
  { s with flights := Function.update s.flights key flight }

-- The stores read the database as it is now; their roots were read when the state was loaded.
def LoadedState.onto (state : LoadedState) (db : DB) : LoadedState where
  quotaTree := { state.quotaTree with db }
  uniqTree := { state.uniqTree with db }

theorem onto_same {db db' : DB} {key : StateKey} (same : ∀ cf, RocksStore.Same cf key.serialize db db') :
    (loadState db key []).onto db' = loadState db' key [] := by
  have quota := (same .nodesQuota).storedRoot
  have uniq := (same .nodesUniq).storedRoot
  simp only [LoadedState.onto, loadState, RocksStore.new, quota, uniq]

inductive Act where
  /-- `relay_inner` up to the prover. -/
  | load (req : RelayRequest)
  /-- `relay_inner` returns before the prover. -/
  | refuse (req : RelayRequest)
  /-- The transaction executes on chain. -/
  | land (key : StateKey)
  /-- The prover or the transactor returns an error, or a status is one. -/
  | reject (key : StateKey)
  /-- A tree operation fails. -/
  | treeError (key : StateKey)
  /-- `db.write` fails. -/
  | writeError (key : StateKey)
  | write (key : StateKey)
  | stop

section steps

variable {H : IdealHash Fr} (G : Gadgets H)

inductive Step : System → Act → System → Prop
  | load {s : System} {req : RelayRequest} {prevCount : Nat} {inputs : RelayInputs} {state : LoadedState}
      (unlocked : s.flights req.key = none)
      (ready : prepare req (loadState s.db req.key []) = .ok (.ok (prevCount, inputs), state)) :
      Step s (.load req) (s.fly req.key (some { req, prevCount, inputs, state, landed := false }))
  | refuse {s : System} {req : RelayRequest} (unlocked : s.flights req.key = none)
      (refused : ∀ r state, prepare req (loadState s.db req.key []) ≠ .ok (.ok r, state)) : Step s
        (.refuse req) s
  | land {s : System} {key : StateKey} {f : Flight} {account : Program.RelayerState} {w : Relay stateDepth}
      (flies : s.flights key = some f) (sent : f.landed = false) (exists' : s.chain key = some account)
      (accepted : Accepted G account f.req f.inputs w) :
      Step s (.land key) { s.fly key (some { f with landed := true }) with
        chain := Function.update s.chain key (some { account with rootState := ofFr w.rootStateNew }) }
  | reject {s : System} {key : StateKey} {f : Flight} (flies : s.flights key = some f) :
      Step s (.reject key) (s.fly key none)
  -- A status without an error is that of a transaction that landed.
  | treeError {s : System} {key : StateKey} {f : Flight} (flies : s.flights key = some f)
    (landed : f.landed = true)
      (failed : ∀ st, record (wordHash H) f.req f.prevCount (f.state.onto s.db) ≠ .ok (.ok (), st)) :
      Step s (.treeError key) (s.fly key none)
  | writeError {s : System} {key : StateKey} {f : Flight} {st : LoadedState} (flies : s.flights key = some f)
      (landed : f.landed = true)
      (recorded : record (wordHash H) f.req f.prevCount (f.state.onto s.db) = .ok (.ok (), st)) :
      Step s (.writeError key) (s.fly key none)
  | write {s : System} {key : StateKey} {f : Flight} {st : LoadedState} (flies : s.flights key = some f)
      (landed : f.landed = true)
      (recorded : record (wordHash H) f.req f.prevCount (f.state.onto s.db) = .ok (.ok (), st)) :
      Step s (.write key) { s.fly key none with db := s.db.write st.uniqTree.batch }
  | stop {s : System} : Step s .stop { s with flights := fun _ => none }

end steps

def System.InSync (H : IdealHash Fr) (s : System) (key : StateKey) : Prop :=
  ∀ account, s.chain key = some account →
  (wordHash H).hash [(loadState s.db key []).quotaTree.cachedRoot,
    (loadState s.db key []).uniqTree.cachedRoot] =
    some account.rootState

def System.Atomic (H : IdealHash Fr) (s : System) : Prop := ∀ key, s.flights key = none → s.InSync H key

namespace Act

def Canonical : Act → Prop
  | .load req => req.nu.toNat < scalarModulus
  | _ => True

/-- No error and no stop ends a request whose transaction has landed. -/
def Reliable : Act → System → Prop
  | .reject key, s => ∀ f, s.flights key = some f → f.landed = false
  | .stop, s => ∀ key f, s.flights key = some f → f.landed = false
  | .writeError _, _ => False
  | _, _ => True

end Act

section carried

variable {H : IdealHash Fr} {G : Gadgets H} {s s' : System} {key : StateKey} {f : Flight} {a : Act}

structure Flight.Carried (G : Gadgets H) (s : System) (key : StateKey) (f : Flight) : Prop where
  own : f.req.key = key
  canonical : f.req.nu.toNat < scalarModulus
  state : f.state.onto s.db = loadState s.db key []
  prepared : Prepared (loadState s.db key []) f.req f.prevCount f.inputs
  waiting : f.landed = false → s.InSync H key
  settled : f.landed = true → ∃ account before w, s.chain key = some account ∧
    account.rootState = ofFr w.rootStateNew ∧ Accepted G before f.req f.inputs w

structure System.Consistent (G : Gadgets H) (s : System) : Prop where
  kept : Kept (wordHash H) s.db
  atomic : s.Atomic H
  carried : ∀ key f, s.flights key = some f → f.Carried G s key

structure Untouched (s s' : System) (key : StateKey) : Prop where
  chain : s'.chain key = s.chain key
  db : ∀ cf, RocksStore.Same cf key.serialize s.db s'.db

namespace Untouched

variable (untouched : Untouched s s' key)

include untouched

theorem quota : (loadState s'.db key []).quotaTree.cachedRoot =
    (loadState s.db key []).quotaTree.cachedRoot :=
  (untouched.db _).storedRoot

theorem uniq : (loadState s'.db key []).uniqTree.cachedRoot = (loadState s.db key []).uniqTree.cachedRoot :=
  (untouched.db _).storedRoot

theorem inSync (inSync : s.InSync H key) : s'.InSync H key := by
  intro account found
  rw [untouched.quota, untouched.uniq]
  exact inSync account (untouched.chain.symm.trans found)

theorem onto : (loadState s.db key []).onto s'.db = loadState s'.db key [] := onto_same untouched.db

theorem carried (carried : f.Carried G s key) : f.Carried G s' key where
  own := carried.own
  canonical := carried.canonical
  state := by
    have same : f.state.onto s'.db = (f.state.onto s.db).onto s'.db := rfl
    rw [same, carried.state, untouched.onto]
  prepared := by
    obtain ⟨quota, uniq, msgHash, nu, countOld, below, auxKeyQuota⟩ := carried.prepared
    exact ⟨quota.trans untouched.quota.symm, uniq.trans untouched.uniq.symm, msgHash, nu, countOld,
      below, auxKeyQuota⟩
  waiting sent := untouched.inSync (carried.waiting sent)
  settled landed := by
    obtain ⟨account, before, w, found, moved, accepted⟩ := carried.settled landed
    exact ⟨account, before, w, untouched.chain.trans found, moved, accepted⟩

end Untouched

theorem fly_self (s : System) (key : StateKey) (flight : Option Flight) :
    (s.fly key flight).flights key = flight :=
  Function.update_self _ _ _

namespace System.Consistent

variable (consistent : s.Consistent G)

include consistent

theorem keep (flight : Option Flight) (kept : Kept (wordHash H) s'.db)
    (flights : s'.flights = Function.update s.flights key flight)
    (others : ∀ other, other ≠ key → Untouched s s' other) (atomic : flight = none → s'.InSync H key)
    (carried : ∀ f, flight = some f → f.Carried G s' key) : s'.Consistent G where
  kept := kept
  atomic other unlocked := by
    rw [flights] at unlocked
    by_cases same : other = key
    · subst same
      rw [Function.update_self] at unlocked
      exact atomic unlocked
    · rw [Function.update_of_ne same] at unlocked
      exact (others other same).inSync (consistent.atomic other unlocked)
  carried other f flies := by
    rw [flights] at flies
    by_cases same : other = key
    · subst same
      rw [Function.update_self] at flies
      exact carried f flies
    · rw [Function.update_of_ne same] at flies
      exact (others other same).carried (consistent.carried other f flies)

theorem released (flies : s.flights key = some f) (waiting : f.landed = false) :
    (s.fly key none).Consistent G := by
  refine consistent.keep none consistent.kept rfl (fun other different => ⟨rfl, fun _ _ => rfl⟩)
    (fun _ => ?_) nofun
  exact (consistent.carried key f flies).waiting waiting

theorem records (flies : s.flights key = some f) (landed : f.landed = true) :
    ∃ account st, s.chain key = some account ∧
      record (wordHash H) f.req f.prevCount (f.state.onto s.db) = .ok (.ok (), st) ∧
      (wordHash H).hash [(loadState (s.db.write st.uniqTree.batch) key []).quotaTree.cachedRoot,
        (loadState (s.db.write st.uniqTree.batch) key []).uniqTree.cachedRoot] = some account.rootState := by
  have carried := consistent.carried key f flies
  obtain ⟨account, before, w, found, moved, accepted⟩ := carried.settled landed
  have prepared := carried.prepared
  rw [← carried.own] at prepared
  obtain ⟨st, recorded, roots⟩ := recorded_of_canonical consistent.kept prepared accepted carried.canonical
  rw [carried.own] at recorded roots
  exact ⟨account, st, found, by rw [carried.state]; exact recorded, by rw [moved]; exact roots⟩

theorem out_of_sync (flies : s.flights key = some f) (landed : f.landed = true) : ¬ s.InSync H key := by
  have carried := consistent.carried key f flies
  obtain ⟨account, before, w, found, moved, accepted⟩ := carried.settled landed
  have prepared := carried.prepared
  rw [← carried.own] at prepared
  intro inSync
  have roots := inSync account found
  rw [moved, ← carried.own] at roots
  exact rootStateNew_ne consistent.kept prepared accepted roots

theorem step (canonical : a.Canonical) (reliable : a.Reliable s) (taken : Step G s a s') :
    s'.Consistent G := by
  cases taken with
  | load unlocked ready =>
      obtain ⟨rfl, prepared⟩ := prepare_spec consistent.kept ready
      refine consistent.keep _ consistent.kept rfl (fun other different =>
        ⟨rfl, fun _ _ => rfl⟩) nofun fun f flies => ?_
      cases flies
      exact ⟨rfl, canonical, rfl, prepared, fun _ => consistent.atomic _ unlocked, nofun⟩
  | refuse => exact consistent
  | land flies sent found accepted =>
      have carried := consistent.carried _ _ flies
      refine consistent.keep _ consistent.kept rfl (fun other different =>
        ⟨?_, fun _ _ => rfl⟩) nofun fun f flies => ?_
      · exact Function.update_of_ne different _ _
      · cases flies
        refine ⟨carried.own, carried.canonical, carried.state, carried.prepared, nofun, fun _ => ?_⟩
        exact ⟨_, _, _, Function.update_self _ _ _, rfl, accepted⟩
  -- A transaction that the server gives up on has not landed, so releasing its state loses nothing.
  | reject flies => exact consistent.released flies (reliable _ flies)
  | treeError flies landed failed =>
      -- What landed was accepted by the circuit, so the trees take it.
      obtain ⟨_, st, _, recorded, _⟩ := consistent.records flies landed
      exact absurd recorded (failed st)
  | writeError => exact reliable.elim
  | write flies landed recorded =>
      have carried := consistent.carried _ _ flies
      obtain ⟨account, st, found, recorded', roots⟩ := consistent.records flies landed
      cases recorded.symm.trans recorded'
      rw [carried.state, ← carried.own] at recorded
      obtain ⟨⟨tq, quotaStores⟩, tu, uniqStores⟩ := consistent.kept (Flight.req _).key
      obtain ⟨tq', tu', _, _, after⟩ := recorded_of_record quotaStores uniqStores recorded
      rw [carried.own] at after
      refine consistent.keep none (after.kept consistent.kept) rfl
        (fun other different => ⟨rfl, after.others other different⟩) (fun _ account' found' => ?_) nofun
      cases found.symm.trans found'
      exact roots
  | stop =>
      refine ⟨consistent.kept, fun key _ => ?_, nofun⟩
      cases flies : s.flights key with
      | none => exact consistent.atomic key flies
      | some f => exact (consistent.carried key f flies).waiting (reliable key f flies)

theorem atomic_iff (canonical : a.Canonical) (taken : Step G s a s') : s'.Atomic H ↔ a.Reliable s := by
  refine ⟨fun atomic => ?_, fun reliable => (consistent.step canonical reliable taken).atomic⟩
  cases taken with
  | load | refuse | land | treeError | write => trivial
  | reject flies =>
      intro f flies'
      have inSync := atomic _ (fly_self s _ none)
      exact Bool.eq_false_of_not_eq_true fun landed => consistent.out_of_sync flies' landed inSync
  | writeError flies landed recorded =>
    exact consistent.out_of_sync flies landed
      (atomic _ (fly_self s _ none))
  | stop =>
      intro key f flies
      exact Bool.eq_false_of_not_eq_true fun landed => consistent.out_of_sync flies landed (atomic key rfl)

end System.Consistent

/-- In every run of requests with canonical nullifiers that abandons no landed request, the unlocked states
are in sync, and the next step keeps them so exactly if it abandons none. -/
theorem relay_atomic {acts : List Act} (kept : Kept (wordHash H) s.db)
    (unlocked : ∀ key, s.flights key = none) (inSync : ∀ key, s.InSync H key)
    (run : Steps (fun s a s' => Step G s a s' ∧ a.Canonical ∧ a.Reliable s) s acts s') :
    s'.Atomic H ∧ ∀ a s'', a.Canonical → Step G s' a s'' → (s''.Atomic H ↔ a.Reliable s') := by
  have started : s.Consistent G := ⟨kept, fun key _ => inSync key, fun key f flies => by
    rw [unlocked key] at flies
    cases flies⟩
  have reached : s'.Consistent G := run.invariant (I := fun _ s => s.Consistent G) started
    fun _ _ _ _ _ consistent taken => consistent.step taken.2.1 taken.2.2 taken.1
  exact ⟨reached.atomic, fun _ _ canonical taken => reached.atomic_iff canonical taken⟩

end carried

namespace FirstRequest

def key : StateKey := (request 5).key

def fresh : System where
  db := db
  chain := Function.update (fun _ => none) key (some account)
  flights _ := none

def sent (landed : Bool) : Flight where
  req := request 5
  prevCount := 0
  inputs := inputs 5
  state := loadState db key []
  landed := landed

theorem fresh_chain : fresh.chain key = some account := by simp [fresh]

theorem fresh_chain_other {other : StateKey} (different : other ≠ key) : fresh.chain other = none := by
  simp [fresh, Function.update_of_ne different]

theorem fresh_kept : Kept (wordHash hash) fresh.db := (Reachable.empty : Reachable (wordHash hash) db).kept

theorem fresh_inSync (other : StateKey) : fresh.InSync hash other := by
  intro found present
  have empty : (wordHash hash).hash [0, 0] = some (ofFr hash00) := by decide +kernel
  by_cases same : other = key
  · subst same
    cases fresh_chain.symm.trans present
    exact empty
  · cases (fresh_chain_other same).symm.trans present

def landing : System :=
  { (fresh.fly key (some (sent false))).fly key (some (sent true)) with
    chain := Function.update fresh.chain key
      (some { account with rootState := ofFr DoubleRelay.first.rootStateNew }) }

theorem landing_flies : landing.flights key = some (sent true) :=
  fly_self (fresh.fly key (some (sent false))) key (some (sent true))

theorem landing_run : Steps (fun s a s' => Step gadgets s a s' ∧ a.Canonical ∧ a.Reliable s) fresh
    [.load (request 5), .land key] landing := by
  have first : Step gadgets fresh (.load (request 5)) (fresh.fly key (some (sent false))) :=
    .load rfl (ready 5)
  have second : Step gadgets (fresh.fly key (some (sent false))) (.land key) landing :=
    .land (fly_self _ _ _) rfl fresh_chain (accepted (by decide +kernel))
  have small : (5 : Word).toNat < scalarModulus := by decide
  exact .cons ⟨first, small, trivial⟩ (.cons ⟨second, trivial, trivial⟩ (.nil _))

theorem landing_consistent : landing.Consistent gadgets := by
  have started : fresh.Consistent gadgets := ⟨fresh_kept, fun other _ => fresh_inSync other, nofun⟩
  exact landing_run.invariant (I := fun _ s => s.Consistent gadgets) started
    fun _ _ _ _ _ consistent taken => consistent.step taken.2.1 taken.2.2 taken.1

theorem relay_atomic_written : ∃ s', Steps (fun s a s' => Step gadgets s a s' ∧ a.Canonical ∧
    a.Reliable s) fresh
    [.load (request 5), .land key, .write key] s' ∧ s'.Atomic hash ∧
      ∀ a s'', a.Canonical → Step gadgets s' a s'' → (s''.Atomic hash ↔ a.Reliable s') := by
  obtain ⟨_, st, _, recorded, _⟩ := landing_consistent.records landing_flies rfl
  have written : Step gadgets landing (.write key) { landing.fly key none
    with db := db.write st.uniqTree.batch } :=
    .write landing_flies rfl recorded
  have run := landing_run.snoc ⟨written, trivial, trivial⟩
  exact ⟨_, run, relay_atomic fresh_kept (fun _ => rfl) fresh_inSync run⟩

/-- The transactor returns an error although the transaction landed. -/
theorem not_atomic_rejected : Kept (wordHash hash) fresh.db ∧ (∀ other, fresh.flights other = none) ∧
    (∀ other, fresh.InSync hash other) ∧
    Steps (fun s a s' => Step gadgets s a s' ∧ a.Canonical) fresh [.load (request 5), .land key, .reject key]
      (landing.fly key none) ∧ ¬ (landing.fly key none).Atomic hash := by
  have rejected : Step gadgets landing (.reject key) (landing.fly key none) := .reject landing_flies
  have run : Steps (fun s a s' => Step gadgets s a s' ∧
    a.Canonical) fresh [.load (request 5), .land key] landing :=
    landing_run.mono fun _ _ _ _ taken => ⟨taken.1, taken.2.1⟩
  refine ⟨fresh_kept, fun _ => rfl, fresh_inSync, run.snoc ⟨rejected, trivial⟩, fun atomic => ?_⟩
  have reliable := (landing_consistent.atomic_iff (a := .reject key) trivial rejected).1 atomic
  cases reliable _ landing_flies

end FirstRequest

end Mootvote.Relayer
