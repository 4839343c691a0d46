import Mootvote.Program.ZkRelayer
import Mootvote.Relayer.Server
import Mootvote.Smt.Frame

set_option autoImplicit false

namespace Mootvote.Relayer

open Shared SparseMerkle SmtCircom SmtCircom.SparseMerkleTree Word

section runs

variable {H : IdealHash Word} {A : Type} {m : Run RocksStore A} {state state' : LoadedState} {a : A}

theorem onQuota_ok {tree : RocksStore} (run : m state.quotaTree = .ok (.ok a, tree)) :
    onQuota m state = .ok (.ok a,
      { quotaTree := tree, uniqTree := { state.uniqTree with batch := tree.batch } }) := by
  rw [onQuota, run]
  rfl

theorem onUniq_ok {tree : RocksStore} (run : m state.uniqTree = .ok (.ok a, tree)) :
    onUniq m state = .ok (.ok a,
      { quotaTree := { state.quotaTree with batch := tree.batch }, uniqTree := tree }) := by
  rw [onUniq, run]
  rfl

theorem of_onQuota_ok (run : onQuota m state = .ok (.ok a, state')) :
    ∃ tree, m state.quotaTree = .ok (.ok a, tree) ∧
      state' = { quotaTree := tree, uniqTree := { state.uniqTree with batch := tree.batch } } := by
  unfold onQuota at run
  split at run
  · cases run
  · next r tree ran =>
      cases r with
      | error e => cases run
      | ok b =>
          cases run
          exact ⟨tree, ran, rfl⟩

theorem of_onUniq_ok (run : onUniq m state = .ok (.ok a, state')) :
    ∃ tree, m state.uniqTree = .ok (.ok a, tree) ∧
      state' = { quotaTree := { state.quotaTree with batch := tree.batch }, uniqTree := tree } := by
  unfold onUniq at run
  split at run
  · cases run
  · next r tree ran =>
      cases r with
      | error e => cases run
      | ok b =>
          cases run
          exact ⟨tree, ran, rfl⟩

inductive Counted (H : IdealHash Word) (req : RelayRequest) (prevCount : Nat)
    (before after : RocksStore) : Prop
  | first (zero : prevCount = 0)
      (run : add H stateDepth (idx req.nu) (u64ToU256 (prevCount + 1)) before = .ok (.ok (), after))
  | again (nonzero : prevCount ≠ 0) (old : Word)
      (run : update H stateDepth (idx req.nu) (u64ToU256 (prevCount + 1)) before = .ok (.ok old, after))

variable {req : RelayRequest} {prevCount : Nat}

theorem record_ok {quota uniq : RocksStore} (counted : Counted H req prevCount state.quotaTree quota)
    (run : add H stateDepth req.msgHash 1 { state.uniqTree with batch := quota.batch } = .ok (.ok (), uniq)) :
    ∃ state', record H req prevCount state = .ok (.ok (), state') ∧ state'.uniqTree = uniq := by
  let middle : LoadedState := { quotaTree := quota, uniqTree := { state.uniqTree with batch := quota.batch } }
  have uniqRun : onUniq (add H stateDepth req.msgHash 1) middle = _ := onUniq_ok run
  refine ⟨{ quotaTree := { quota with batch := uniq.batch }, uniqTree := uniq }, ?_, rfl⟩
  cases counted with
  | first zero run =>
      rw [record, if_pos zero]
      exact (Exec.bind_ok (onQuota_ok run)).trans uniqRun
  | again nonzero old run =>
      rw [record, if_neg nonzero]
      exact (Exec.bind_ok (onQuota_ok run)).trans uniqRun

theorem of_record_ok (run : record H req prevCount state = .ok (.ok (), state')) :
    ∃ quota, Counted H req prevCount state.quotaTree quota ∧
      add H stateDepth req.msgHash 1 { state.uniqTree with batch := quota.batch } = .ok
      (.ok (), state'.uniqTree) := by
  by_cases zero : prevCount = 0
  · rw [record, if_pos zero] at run
    obtain ⟨_, mid, quotaRun, uniqRun⟩ := Exec.of_bind_ok run
    obtain ⟨quota, added, rfl⟩ := of_onQuota_ok quotaRun
    obtain ⟨uniq, stored, rfl⟩ := of_onUniq_ok uniqRun
    exact ⟨quota, .first zero added, stored⟩
  · rw [record, if_neg zero] at run
    obtain ⟨old, mid, quotaRun, uniqRun⟩ := Exec.of_bind_ok run
    obtain ⟨quota, updated, rfl⟩ := of_onQuota_ok quotaRun
    obtain ⟨uniq, stored, rfl⟩ := of_onUniq_ok uniqRun
    exact ⟨quota, .again zero old updated, stored⟩

end runs

section databases

variable {H : IdealHash Word} {db db' : DB} {key : StateKey} {req : RelayRequest} {prevCount : Nat}

theorem serialize_injective {key' : StateKey} (same : key'.serialize = key.serialize) : key' = key := by
  obtain ⟨programs, ids⟩ := List.append_inj same (by simp)
  have program : key'.program = key.program := by
    rw [← ofBytes_bytes key'.program, programs, ofBytes_bytes]
  have numbers := congrArg ofBytesBE ids
  rw [ofBytesBE_bytesBE, ofBytesBE_bytesBE, show 256 ^ 8 = 2 ^ 64 by decide,
    Nat.mod_eq_of_lt key'.stateId.isLt, Nat.mod_eq_of_lt key.stateId.isLt] at numbers
  have stateId : key'.stateId = key.stateId := BitVec.eq_of_toNat_eq numbers
  cases key'
  cases key
  simp_all

theorem length_serialize (key : StateKey) : key.serialize.length = 40 := by simp [StateKey.serialize]

def Kept (H : IdealHash Word) (db : DB) : Prop := ∀ key : StateKey,
  (∃ t, Stores H stateDepth (loadState db key []).quotaTree t) ∧
    ∃ t, Stores H stateDepth (loadState db key []).uniqTree t

structure Recorded (H : IdealHash Word) (key : StateKey) (db db' : DB)
    (quota uniq : SparseTree Word) : Prop where
  quota : Stores H stateDepth (loadState db' key []).quotaTree quota
  uniq : Stores H stateDepth (loadState db' key []).uniqTree uniq
  others : ∀ other, other ≠ key → ∀ cf, RocksStore.Same cf other.serialize db db'

theorem Recorded.kept {quota uniq : SparseTree Word} (recorded : Recorded H key db db' quota uniq)
    (kept : Kept H db) :
    Kept H db' := by
  intro other
  by_cases same : other = key
  · subst same
    exact ⟨⟨_, recorded.quota⟩, ⟨_, recorded.uniq⟩⟩
  · obtain ⟨⟨tq, quotaStores⟩, ⟨tu, uniqStores⟩⟩ := kept other
    exact ⟨⟨tq, RocksStore.kept quotaStores (recorded.others other same _)⟩,
      ⟨tu, RocksStore.kept uniqStores (recorded.others other same _)⟩⟩

theorem uniq_shared {quota : RocksStore} {t : SparseTree Word}
    (stores : Stores H stateDepth (loadState db key []).uniqTree t)
    (follows : RocksStore.Follows (loadState db key []).quotaTree quota) :
    Stores H stateDepth (RocksStore.new db .nodesUniq quota.batch key.serialize) t ∧
      (RocksStore.new db .nodesUniq quota.batch key.serialize).Flushed := by
  obtain ⟨own, batch, inside⟩ := follows.batch
  have apart : RocksStore.Same .nodesUniq key.serialize db (db.write quota.batch) := by
    rw [batch, show (loadState db key []).quotaTree.batch = [] from rfl, List.nil_append]
    exact RocksStore.Same.write db rfl (by simp [loadState, RocksStore.new]) inside
  exact ⟨RocksStore.shared stores apart, RocksStore.flushed_shared apart⟩

theorem recorded_of_follows {quota uniq : RocksStore} {tq tu : SparseTree Word}
    (quotaFollows : RocksStore.Follows (loadState db key []).quotaTree quota)
    (quotaStaged : Staged H stateDepth quota tq)
    (uniqFollows : RocksStore.Follows (RocksStore.new db .nodesUniq quota.batch key.serialize) uniq)
    (uniqFlushed : (RocksStore.new db .nodesUniq quota.batch key.serialize).Flushed)
    (uniqStaged : Staged H stateDepth uniq tu) : Recorded H key db (db.write uniq.batch) tq tu := by
  obtain ⟨own, quotaBatch, quotaInside⟩ := quotaFollows.batch
  obtain ⟨own', uniqBatch, uniqInside⟩ := uniqFollows.batch
  have writes : db.write uniq.batch = (db.write quota.batch).write own' := by
    rw [uniqBatch, DB.write_append]
    rfl
  have quotaWrites : quota.batch = own := quotaBatch
  constructor
  · have same : RocksStore.Same quota.cf quota.keyPrefix (quota.db.write quota.batch)
      (db.write uniq.batch) := by
      rw [quotaFollows.db, quotaFollows.cf, quotaFollows.keyPrefix, writes]
      exact RocksStore.Same.write _ rfl (by simp [loadState, RocksStore.new]) uniqInside
    have stores := RocksStore.reopened quotaStaged (quotaFollows.flushed (RocksStore.flushed_new _ _ _)) same
    rw [quotaFollows.cf, quotaFollows.keyPrefix] at stores
    exact stores
  · have same : RocksStore.Same uniq.cf uniq.keyPrefix (uniq.db.write uniq.batch) (db.write uniq.batch) := by
      rw [uniqFollows.db]
      exact fun _ => rfl
    have stores := RocksStore.reopened uniqStaged (uniqFollows.flushed uniqFlushed) same
    rw [uniqFollows.cf, uniqFollows.keyPrefix] at stores
    exact stores
  · -- All writes go under this state's prefix.
    intro other different cf k
    have prefixes : key.serialize ≠ other.serialize := fun same => different (serialize_injective same).symm
    have lengths : key.serialize.length = other.serialize.length := by rw [length_serialize, length_serialize]
    have first : RocksStore.Same cf other.serialize db (db.write own) :=
      RocksStore.Same.write db lengths (fun _ => prefixes) quotaInside
    have second : RocksStore.Same cf other.serialize (db.write own) ((db.write own).write own') :=
      RocksStore.Same.write _ lengths (fun _ => prefixes) uniqInside
    rw [writes, quotaWrites]
    exact (second k).trans (first k)

end databases

section relays

variable {H : IdealHash Word} {db db' : DB} {req : RelayRequest} {prevCount : Nat}

structure Prepared (state : LoadedState) (req : RelayRequest) (prevCount : Nat)
    (inputs : RelayInputs) : Prop where
  rootQuotaOld : inputs.rootQuotaOld = state.quotaTree.cachedRoot
  rootUniqOld : inputs.rootUniqOld = state.uniqTree.cachedRoot
  msgHash : inputs.msgHash = req.msgHash
  nu : inputs.nu = req.nu
  countOld : inputs.countOld = prevCount
  below : prevCount < msgLimit
  auxKeyQuota : prevCount ≠ 0 → inputs.auxKeyQuota = idx req.nu

theorem of_prepare_ok {state : LoadedState} {inputs : RelayInputs} (kept : Kept H db)
    (run : prepare req (loadState db req.key []) = .ok (.ok (prevCount, inputs), state)) :
    state = loadState db req.key [] ∧ ∃ quota,
      getProof stateDepth (idx req.nu) (loadState db req.key []).quotaTree =
        .ok (.ok quota, (loadState db req.key []).quotaTree) ∧
      prevCount = (if quota.membership then quota.oldValue.toNat % 2 ^ 64 else 0) ∧ prevCount < msgLimit ∧
      inputs.rootQuotaOld = (loadState db req.key []).quotaTree.cachedRoot ∧
      inputs.rootUniqOld = (loadState db req.key []).uniqTree.cachedRoot ∧
      inputs.msgHash = req.msgHash ∧ inputs.nu = req.nu ∧ inputs.countOld = prevCount ∧
      inputs.auxKeyQuota = quota.oldKey := by
  obtain ⟨⟨tq, quotaStores⟩, ⟨tu, uniqStores⟩⟩ := kept req.key
  unfold prepare at run
  obtain ⟨quota, s₁, quotaRun, run⟩ := Exec.of_bind_ok run
  obtain ⟨tree, quotaProof, rfl⟩ := of_onQuota_ok quotaRun
  obtain ⟨_, rfl⟩ := getProof_state quotaStores (by decide) quotaProof
  obtain ⟨uniq, s₂, uniqRun, run⟩ := Exec.of_bind_ok run
  obtain ⟨tree, uniqProof, rfl⟩ := of_onUniq_ok uniqRun
  obtain ⟨_, rfl⟩ := getProof_state uniqStores (by decide) uniqProof
  by_cases duplicated : uniq.membership = true
  · rw [if_pos duplicated] at run
    cases run
  · rw [if_neg duplicated] at run
    dsimp only at run
    generalize counts : (if quota.membership = true then quota.oldValue.toNat % 2 ^ 64 else 0) = count at run
    by_cases exceeded : msgLimit ≤ count
    · rw [if_pos exceeded] at run
      cases run
    · rw [if_neg exceeded] at run
      obtain ⟨rootQuota, s₃, rootQuotaRun, run⟩ := Exec.of_bind_ok run
      obtain ⟨tree, rootQuotaRead, rfl⟩ := of_onQuota_ok rootQuotaRun
      cases rootQuotaRead
      obtain ⟨rootUniq, s₄, rootUniqRun, run⟩ := Exec.of_bind_ok run
      obtain ⟨tree, rootUniqRead, rfl⟩ := of_onUniq_ok rootUniqRun
      cases rootUniqRead
      cases run
      exact ⟨rfl, quota, quotaProof, counts.symm, Nat.not_le.1 exceeded, rfl, rfl, rfl, rfl, rfl, rfl⟩

theorem prepare_spec {state : LoadedState} {inputs : RelayInputs} (kept : Kept H db)
    (run : prepare req (loadState db req.key []) = .ok (.ok (prevCount, inputs), state)) :
    state = loadState db req.key [] ∧ Prepared (loadState db req.key []) req prevCount inputs := by
  obtain ⟨rfl, quota, proof, counts, below, rootQuotaOld, rootUniqOld, msgHash, nu, countOld, auxKeyQuota⟩ :=
    of_prepare_ok kept run
  refine ⟨rfl, rootQuotaOld, rootUniqOld, msgHash, nu, countOld, below, fun counted => ?_⟩
  obtain ⟨⟨tq, quotaStores⟩, _⟩ := kept req.key
  by_cases member : quota.membership = true
  · exact auxKeyQuota.trans (oldKey_of_member quotaStores (by decide) proof member)
  · rw [if_neg member] at counts
    exact absurd counts counted

theorem prevCount_read {state : LoadedState} {inputs : RelayInputs} {tq : SparseTree Word} (kept : Kept H db)
    (stores : Stores H stateDepth (loadState db req.key []).quotaTree tq)
    (run : prepare req (loadState db req.key []) = .ok (.ok (prevCount, inputs), state))
    (nonzero : prevCount ≠ 0) :
    ∃ old, tq.lookup (idx req.nu) 0 = some old ∧ prevCount = old.toNat % 2 ^ 64 := by
  obtain ⟨_, quota, proof, counts, _⟩ := of_prepare_ok kept run
  by_cases member : quota.membership = true
  · rw [if_pos member] at counts
    exact ⟨quota.oldValue, lookup_of_member stores (by decide) proof member, counts⟩
  · rw [if_neg member] at counts
    exact absurd counts nonzero

inductive QuotaChange (req : RelayRequest) (prevCount : Nat) (t : SparseTree Word) : SparseTree Word → Prop
  | first {t' : SparseTree Word} (zero : prevCount = 0)
      (done : t.add (idx req.nu) (u64ToU256 (prevCount + 1)) stateDepth 0 =
        some t') : QuotaChange req prevCount t t'
  | again {t' : SparseTree Word} (nonzero : prevCount ≠ 0) (old : Word)
      (done : t.set (idx req.nu) (u64ToU256 (prevCount + 1)) 0 =
        some (old, t')) : QuotaChange req prevCount t t'

theorem Counted.staged {before after : RocksStore} {t : SparseTree Word}
    (counted : Counted H req prevCount before after) (stores : Stores H stateDepth before t) :
    ∃ t', QuotaChange req prevCount t t' ∧ Staged H stateDepth after t' := by
  cases counted with
  | first zero run =>
      obtain ⟨t', done, staged⟩ := of_add stores (by decide) run
      exact ⟨t', .first zero done, staged⟩
  | again nonzero old run =>
      obtain ⟨t', done, staged⟩ := of_update stores (by decide) run
      exact ⟨t', .again nonzero old done, staged⟩

theorem Counted.follows {before after : RocksStore} (counted : Counted H req prevCount before after) :
    RocksStore.Follows before after := by
  cases counted with
  | first _ run => exact (RocksStore.framed H).add _ _ _ _ _ run
  | again _ _ run => exact (RocksStore.framed H).update _ _ _ _ _ run

theorem recorded_of_record {state' : LoadedState} {tq tu : SparseTree Word}
    (quotaStores : Stores H stateDepth (loadState db req.key []).quotaTree tq)
    (uniqStores : Stores H stateDepth (loadState db req.key []).uniqTree tu)
    (run : record H req prevCount (loadState db req.key []) = .ok (.ok (), state')) :
    ∃ tq' tu', QuotaChange req prevCount tq tq' ∧ tu.add req.msgHash 1 stateDepth 0 = some tu' ∧
      Recorded H req.key db (db.write state'.uniqTree.batch) tq' tu' := by
  obtain ⟨quota, counted, stored⟩ := of_record_ok run
  obtain ⟨shared, flushed⟩ := uniq_shared uniqStores counted.follows
  obtain ⟨tq', changed, quotaStaged⟩ := counted.staged quotaStores
  obtain ⟨tu', added, uniqStaged⟩ := of_add shared (by decide) stored
  have follows := (RocksStore.framed H).add _ _ _ _ _ stored
  exact ⟨tq', tu', changed, added, recorded_of_follows counted.follows quotaStaged follows flushed uniqStaged⟩

theorem of_relayInner_ok {accepts : RelayInputs → Bool} (kept : Kept H db)
    (run : relayInner H accepts req db = .ok (.ok (), db')) :
    ∃ prevCount inputs state', prepare req (loadState db req.key []) =
        .ok (.ok (prevCount, inputs), loadState db req.key []) ∧
      record H req prevCount (loadState db req.key []) = .ok (.ok (), state') ∧
      db' = db.write state'.uniqTree.batch := by
  unfold relayInner at run
  split at run
  · cases run
  · cases run
  · next state' served =>
      cases run
      obtain ⟨⟨prevCount, inputs⟩, mid, ready, rest⟩ := Exec.of_bind_ok served
      obtain ⟨rfl, _⟩ := prepare_spec kept ready
      refine ⟨prevCount, inputs, state', ready, ?_, rfl⟩
      dsimp only at rest
      split at rest
      · exact rest
      · cases rest

inductive Reachable (H : IdealHash Word) : DB → Prop
  | empty : Reachable H fun _ _ => none
  | relay {db db' : DB} {accepts : RelayInputs → Bool} {req : RelayRequest} :
      Reachable H db → relayInner H accepts req db = .ok (.ok (), db') → Reachable H db'

theorem Reachable.kept (reached : Reachable H db) : Kept H db := by
  induction reached with
  | empty =>
    exact fun key => ⟨⟨.empty, RocksStore.stores_new H stateDepth _ _⟩, .empty,
      RocksStore.stores_new H stateDepth _ _⟩
  | relay _ run kept =>
      rename_i req _
      obtain ⟨prevCount, inputs, state', _, recorded, rfl⟩ := of_relayInner_ok kept run
      obtain ⟨⟨tq, quotaStores⟩, tu, uniqStores⟩ := kept req.key
      obtain ⟨tq', tu', _, _, recorded⟩ := recorded_of_record quotaStores uniqStores recorded
      exact recorded.kept kept

end relays

section inStep

variable {H : IdealHash Fr} {G : Gadgets H} {db : DB} {req : RelayRequest} {prevCount : Nat}
  {inputs : RelayInputs}
  {w : Relay stateDepth} {account : Program.RelayerState} {st : LoadedState}

/-- The witness generator reads its inputs modulo the field's order, and the hints off the nullifier's bits. -/
structure Generated (inputs : RelayInputs) (w : Relay stateDepth) : Prop where
  rootQuotaOld : w.rootQuotaOld = reduce inputs.rootQuotaOld
  rootUniqOld : w.rootUniqOld = reduce inputs.rootUniqOld
  msgHash : w.msgHash = reduce inputs.msgHash
  msgLimit : w.msgLimit = (inputs.msgLimit : Fr)
  nu : w.nu = reduce inputs.nu
  countOld : w.countOld = (inputs.countOld : Fr)
  siblingsQuota : List.ofFn w.siblingsQuota = inputs.siblingsQuota.map reduce
  noAuxQuota : w.noAuxQuota = if inputs.noAuxQuota then 1 else 0
  auxKeyQuota : w.auxKeyQuota = reduce inputs.auxKeyQuota
  auxValueQuota : w.auxValueQuota = reduce inputs.auxValueQuota
  siblingsUniq : List.ofFn w.siblingsUniq = inputs.siblingsUniq.map reduce
  noAuxUniq : w.noAuxUniq = if inputs.noAuxUniq then 1 else 0
  auxKeyUniq : w.auxKeyUniq = reduce inputs.auxKeyUniq
  auxValueUniq : w.auxValueUniq = reduce inputs.auxValueUniq
  nuLo : w.nuLo = ((w.nu.val % 2 ^ stateDepth : Nat) : Fr)
  nuHi : w.nuHi = ((w.nu.val / 2 ^ stateDepth : Nat) : Fr)

/-- The transaction that the server builds is accepted: the witness satisfies the circuit, and its public
signals are what `relay` verifies the proof against. -/
structure Accepted (G : Gadgets H) (account : Program.RelayerState) (req : RelayRequest)
    (inputs : RelayInputs)
    (w : Relay stateDepth) : Prop where
  generated : Generated inputs w
  constraints : w.Constraints G
  publicInputs : w.publicSignals.map ofFr =
    Program.ZkRelayer.relayPublicInputs account (ofFr w.rootStateNew) (ofFr w.nuHash) req.msgHash

/-- The server records the request, and its new roots hash to the new root on chain. -/
def InStep (H : IdealHash Fr) (db : DB) (req : RelayRequest) (rootStateNew : Fr) : Prop :=
  ∃ db', relayInner (wordHash H) (fun _ => true) req db = .ok (.ok (), db') ∧
    (wordHash H).hash [(loadState db' req.key []).quotaTree.cachedRoot,
      (loadState db' req.key []).uniqTree.cachedRoot] = some (ofFr rootStateNew)

theorem ofFr_reduce_commit {t : SparseTree Word} {r : Word} (committed : t.commit (wordHash H) = some r) :
    ofFr (reduce r) = r := by
  have encoded {xs : List Word} (hashed : (wordHash H).hash xs = some r) : ofFr (reduce r) = r := by
    obtain ⟨_, x, _, _, encodes⟩ := wordHash_eq_some_iff.1 hashed
    exact ofFr_reduce (toNat_lt encodes)
  cases t with
  | empty =>
      cases committed
      exact ofFr_reduce (by decide)
  | leaf key value => exact encoded committed
  | node left right =>
      obtain ⟨a, b, _, _, hashed⟩ := SparseTree.commit_node_iff.1 committed
      exact encoded hashed

theorem toNat_idx (nu : Word) : (idx nu).toNat = nu.toNat % 2 ^ 64 := by
  have low : nu.toNat % 2 ^ 64 < 2 ^ 256 := by omega
  rw [idx, BitVec.toNat_ofNat, Nat.mod_eq_of_lt low]

theorem ofFr_count {n : Nat} (below : n < msgLimit) : ofFr ((n : Fr) + 1) = u64ToU256 (n + 1) := by
  have small : n < 3 := below
  apply BitVec.eq_of_toNat_eq
  rw [toNat_ofFr, u64ToU256, BitVec.toNat_ofNat, ← Nat.cast_succ, ZMod.val_natCast]
  rw [Nat.mod_eq_of_lt (by unfold scalarModulus; omega), Nat.mod_eq_of_lt (by omega)]

namespace Accepted

theorem nuLo (accepted : Accepted G account req inputs w) (nu : inputs.nu = req.nu) :
    (ofFr w.nuLo).toNat = req.nu.toNat % scalarModulus % 2 ^ 64 := by
  have low : req.nu.toNat % scalarModulus % 2 ^ 64 < scalarModulus := by unfold scalarModulus; omega
  rw [toNat_ofFr, accepted.generated.nuLo, accepted.generated.nu, nu, val_reduce, ZMod.val_natCast,
    Nat.mod_eq_of_lt low]

theorem msgHash (accepted : Accepted G account req inputs w) : ofFr w.msgHash = req.msgHash := by
  have signals := accepted.publicInputs
  simp only [Relay.publicSignals, Program.ZkRelayer.relayPublicInputs, List.map_cons, List.map_nil,
    List.cons.injEq] at signals
  exact signals.2.2.2.1

variable {state : LoadedState}

theorem booleans (accepted : Accepted G account req inputs w) :
    Boolean w.noAuxQuota ∧ Boolean w.noAuxUniq := by
  rw [accepted.generated.noAuxQuota, accepted.generated.noAuxUniq]
  constructor <;> split_ifs
  · exact .inr rfl
  · exact .inl rfl
  · exact .inr rfl
  · exact .inl rfl

theorem countOld (accepted : Accepted G account req inputs w)
    (prepared : Prepared state req prevCount inputs) :
    w.countOld = ((prevCount : Nat) : Fr) := by
  rw [accepted.generated.countOld, prepared.countOld]

theorem countOld_eq_zero (accepted : Accepted G account req inputs w)
    (prepared : Prepared state req prevCount inputs) :
    w.countOld = 0 ↔ prevCount = 0 := by
  have small : prevCount < 3 := prepared.below
  have value : w.countOld.val = prevCount := by
    rw [accepted.countOld prepared, ZMod.val_natCast, Nat.mod_eq_of_lt (by unfold scalarModulus; omega)]
  rw [← ZMod.val_eq_zero, value]

theorem newValue (accepted : Accepted G account req inputs w)
    (prepared : Prepared state req prevCount inputs) :
    ofFr w.quotaProcessor.newValue = u64ToU256 (prevCount + 1) := by
  rw [show w.quotaProcessor.newValue = w.countOld + 1 from rfl, accepted.countOld prepared,
    ofFr_count prepared.below]

theorem rootQuotaOld (accepted : Accepted G account req inputs w)
    (prepared : Prepared state req prevCount inputs)
    {t : SparseTree Word} (committed : t.commit (wordHash H) = some state.quotaTree.cachedRoot) :
    ofFr w.rootQuotaOld = state.quotaTree.cachedRoot := by
  rw [accepted.generated.rootQuotaOld, prepared.rootQuotaOld, ofFr_reduce_commit committed]

theorem inserts (accepted : Accepted G account req inputs w) (prepared : Prepared state req prevCount inputs)
    {t : SparseTree Word} (committed : t.commit (wordHash H) = some state.quotaTree.cachedRoot)
    (zero : prevCount = 0) :
    (openingOfFr w.quotaProcessor.opening).Inserts (wordHash H) state.quotaTree.cachedRoot (ofFr w.nuLo)
      (u64ToU256 (prevCount + 1)) (ofFr w.rootQuotaNew) := by
  have empty : w.isOldEmpty = 1 := by
    rw [Relay.isOldEmpty, isZero, if_pos ((accepted.countOld_eq_zero prepared).2 zero)]
  have inserted := inserts_ofFr (G.insertion w.quotaProcessor accepted.constraints.quotaProcessor
    accepted.booleans.1 (by simp [Relay.quotaProcessor, empty]))
  rw [accepted.newValue prepared] at inserted
  rw [← accepted.rootQuotaOld prepared committed]
  exact inserted

theorem updates (accepted : Accepted G account req inputs w) (prepared : Prepared state req prevCount inputs)
    {t : SparseTree Word} (committed : t.commit (wordHash H) = some state.quotaTree.cachedRoot)
    (nonzero : prevCount ≠ 0) :
    (openingOfFr w.quotaProcessor.opening).Updates (wordHash H) state.quotaTree.cachedRoot (ofFr w.nuLo)
      (u64ToU256 (prevCount + 1)) (ofFr w.rootQuotaNew) := by
  have present : w.isOldEmpty = 0 := by
    rw [Relay.isOldEmpty, isZero, if_neg fun zero => nonzero ((accepted.countOld_eq_zero prepared).1 zero)]
  have updated := updates_ofFr (G.update w.quotaProcessor accepted.constraints.quotaProcessor
    accepted.booleans.1 (by simp [Relay.quotaProcessor, present]))
  rw [accepted.newValue prepared] at updated
  rw [← accepted.rootQuotaOld prepared committed]
  exact updated

theorem uniqInserts (accepted : Accepted G account req inputs w)
    (prepared : Prepared state req prevCount inputs)
    {t : SparseTree Word} (committed : t.commit (wordHash H) = some state.uniqTree.cachedRoot) :
    (openingOfFr w.uniqProcessor.opening).Inserts (wordHash H) state.uniqTree.cachedRoot req.msgHash 1
      (ofFr w.rootUniqNew) := by
  have inserted := inserts_ofFr (G.insertion w.uniqProcessor accepted.constraints.uniqProcessor
    accepted.booleans.2 rfl)
  have root : ofFr w.rootUniqOld = state.uniqTree.cachedRoot := by
    rw [accepted.generated.rootUniqOld, prepared.rootUniqOld, ofFr_reduce_commit committed]
  rw [show ofFr w.uniqProcessor.oldRoot = state.uniqTree.cachedRoot from root,
    show ofFr w.uniqProcessor.newKey = req.msgHash from accepted.msgHash,
    show ofFr w.uniqProcessor.newValue = 1 from ofFr_one] at inserted
  exact inserted

theorem rootStateNew (accepted : Accepted G account req inputs w) :
    (wordHash H).hash [ofFr w.rootQuotaNew, ofFr w.rootUniqNew] = some (ofFr w.rootStateNew) := by
  have hashed := wordHash_ofFr H [w.rootQuotaNew, w.rootUniqNew]
  rw [accepted.constraints.rootStateNew] at hashed
  exact hashed

end Accepted

theorem relayInner_ok {H : IdealHash Word}
    (ready : prepare req (loadState db req.key []) = .ok (.ok (prevCount, inputs), loadState db req.key []))
    (recorded : record H req prevCount (loadState db req.key []) = .ok (.ok (), st)) :
    relayInner H (fun _ => true) req db = .ok (.ok (), db.write st.uniqTree.batch) := by
  have served : serve H (fun _ => true) req (loadState db req.key []) = .ok (.ok (), st) :=
    (Exec.bind_ok ready).trans recorded
  rw [relayInner, served]

/-- A canonical nullifier has the leaf key of the circuit, and both sides take the circuit's transition. -/
theorem recorded_of_canonical (kept : Kept (wordHash H) db)
    (prepared : Prepared (loadState db req.key []) req prevCount inputs)
    (accepted : Accepted G account req inputs w) (canonical : req.nu.toNat < scalarModulus) :
    ∃ st', record (wordHash H) req prevCount (loadState db req.key []) = .ok (.ok (), st') ∧
      (wordHash H).hash [(loadState (db.write st'.uniqTree.batch) req.key []).quotaTree.cachedRoot,
        (loadState (db.write st'.uniqTree.batch) req.key []).uniqTree.cachedRoot] =
          some (ofFr w.rootStateNew) := by
  obtain ⟨⟨tq, quotaStores⟩, tu, uniqStores⟩ := kept req.key
  have key : ofFr w.nuLo = idx req.nu := by
    apply BitVec.eq_of_toNat_eq
    rw [accepted.nuLo prepared.nu, toNat_idx, Nat.mod_eq_of_lt canonical]
  have length (xs : Fin stateDepth → Fr) : ((List.ofFn xs).map ofFr).length = stateDepth := by simp
  -- The server inserts where the circuit inserts, at the first message, and updates after it.
  have quotaDone : ∃ quota tq', Counted (wordHash H) req prevCount (loadState db req.key []).quotaTree quota ∧
      Staged (wordHash H) stateDepth quota tq' ∧ LawfulNodeStore.root quota = ofFr w.rootQuotaNew := by
    by_cases zero : prevCount = 0
    · have inserted := accepted.inserts prepared quotaStores.commit zero
      rw [key] at inserted
      obtain ⟨quota, tq', run, _, staged, root⟩ := add_of_inserts quotaStores (by decide) (length _) inserted
      exact ⟨quota, tq', .first zero run, staged, root⟩
    · have updated := accepted.updates prepared quotaStores.commit zero
      rw [key] at updated
      obtain ⟨quota, tq', run, _, staged, root⟩ :=
        update_of_updates quotaStores (by decide) (length _) updated
      exact ⟨quota, tq', .again zero _ run, staged, root⟩
  obtain ⟨quota, tq', counted, quotaStaged, quotaRoot⟩ := quotaDone
  -- The second tree opens the database behind the first one's batch.
  obtain ⟨shared, flushed⟩ := uniq_shared uniqStores counted.follows
  obtain ⟨uniq, tu', run, _, uniqStaged, uniqRoot⟩ := add_of_inserts shared (by decide) (length _)
    (accepted.uniqInserts prepared uniqStores.commit)
  obtain ⟨st', recorded, rfl⟩ := record_ok counted run
  have follows := (RocksStore.framed (wordHash H)).add _ _ _ _ _ run
  have after := recorded_of_follows counted.follows quotaStaged follows flushed uniqStaged
  refine ⟨st', recorded, ?_⟩
  have quotaNew := Option.some.inj (after.quota.commit.symm.trans quotaStaged.commit)
  have uniqNew := Option.some.inj (after.uniq.commit.symm.trans uniqStaged.commit)
  rw [show (loadState _ req.key []).quotaTree.cachedRoot = _ from quotaNew,
    show (loadState _ req.key []).uniqTree.cachedRoot = _ from uniqNew, quotaRoot, uniqRoot]
  exact accepted.rootStateNew

theorem in_step_of_canonical (kept : Kept (wordHash H) db)
    (ready : prepare req (loadState db req.key []) = .ok (.ok (prevCount, inputs), st))
    (accepted : Accepted G account req inputs w) (canonical : req.nu.toNat < scalarModulus) :
    InStep H db req w.rootStateNew := by
  obtain ⟨rfl, prepared⟩ := prepare_spec kept ready
  obtain ⟨st', recorded, roots⟩ := recorded_of_canonical kept prepared accepted canonical
  exact ⟨_, relayInner_ok ready recorded, roots⟩

/-- The uniq tree takes a new leaf, so the root on chain moves away from the server's old roots. -/
theorem rootStateNew_ne (kept : Kept (wordHash H) db)
    (prepared : Prepared (loadState db req.key []) req prevCount inputs)
    (accepted : Accepted G account req inputs w) :
    (wordHash H).hash [(loadState db req.key []).quotaTree.cachedRoot,
      (loadState db req.key []).uniqTree.cachedRoot] ≠
      some (ofFr w.rootStateNew) := by
  intro unmoved
  obtain ⟨_, tu, uniqStores⟩ := kept req.key
  have roots := (wordHash H).injective unmoved accepted.rootStateNew
  simp only [List.cons.injEq, and_true] at roots
  obtain ⟨tu', added, committed⟩ := (accepted.uniqInserts prepared uniqStores.commit).add uniqStores.commit
  rw [← roots.2] at committed
  have same : tu' = tu := SparseTree.commit_injective committed uniqStores.commit
  subst same
  have stored := SparseTree.lookup_add uniqStores.shaped.ordered added req.msgHash
  rw [if_pos rfl] at stored
  rw [SparseTree.add_eq_none_of_lookup stored] at added
  cases added

/-- No multiple of the field's order up to `2^256` is a multiple of `2^64`. -/
theorem overflow_changes_key {n : Nat} (below : n < 2 ^ 256) (overflow : scalarModulus ≤ n) :
    n % 2 ^ 64 ≠ n % scalarModulus % 2 ^ 64 := by
  have parts := Nat.div_add_mod n scalarModulus
  have atLeast : 1 ≤ n / scalarModulus := Nat.div_pos overflow (by decide)
  have atMost : n / scalarModulus ≤ 5 := by
    have quotient : n / scalarModulus < 6 := Nat.div_lt_of_lt_mul (by unfold scalarModulus; omega)
    omega
  generalize n % scalarModulus = r at parts ⊢
  generalize n / scalarModulus = q at parts atLeast atMost
  unfold scalarModulus at parts
  intro same
  have cases : q = 1 ∨ q = 2 ∨ q = 3 ∨ q = 4 ∨ q = 5 := by omega
  rcases cases with rfl | rfl | rfl | rfl | rfl <;> omega

theorem not_in_step_of_overflow (kept : Kept (wordHash H) db)
    (ready : prepare req (loadState db req.key []) = .ok (.ok (prevCount, inputs), st))
    (accepted : Accepted G account req inputs w) (overflow : scalarModulus ≤ req.nu.toNat) :
    ¬ InStep H db req w.rootStateNew := by
  rintro ⟨db', run, hashed⟩
  obtain ⟨rfl, prepared⟩ := prepare_spec kept ready
  obtain ⟨_, _, st', ready', recorded, rfl⟩ := of_relayInner_ok kept run
  cases ready.symm.trans ready'
  obtain ⟨⟨tq, quotaStores⟩, tu, uniqStores⟩ := kept req.key
  obtain ⟨tq', tu', changed, _, after⟩ := recorded_of_record quotaStores uniqStores recorded
  have other : idx req.nu ≠ ofFr w.nuLo := by
    intro same
    have numbers := congrArg BitVec.toNat same
    rw [toNat_idx, accepted.nuLo prepared.nu] at numbers
    exact overflow_changes_key req.nu.isLt overflow numbers
  have roots := (wordHash H).injective hashed accepted.rootStateNew
  simp only [List.cons.injEq, and_true] at roots
  have committed : tq'.commit (wordHash H) = some (ofFr w.rootQuotaNew) := by
    rw [← roots.1]
    exact after.quota.commit
  cases changed with
  | first zero done =>
      -- The circuit's tree has no leaf under the server's key.
      obtain ⟨t'', done', committed'⟩ := (accepted.inserts prepared quotaStores.commit zero).add
        quotaStores.commit
      have same := SparseTree.commit_injective committed committed'
      subst same
      have ordered := quotaStores.shaped.ordered
      have stored := SparseTree.lookup_add ordered done (idx req.nu)
      rw [if_pos rfl, SparseTree.lookup_add ordered done' (idx req.nu), if_neg other] at stored
      rw [SparseTree.add_eq_none_of_lookup stored] at done
      cases done
  | again nonzero old done =>
      -- The circuit updates the leaf whose key the server passed on.
      have updated := accepted.updates prepared quotaStores.commit nonzero
      have aux : ofFr w.auxKeyQuota = idx req.nu := by
        rw [accepted.generated.auxKeyQuota, prepared.auxKeyQuota nonzero]
        refine ofFr_reduce ?_
        rw [toNat_idx]
        unfold scalarModulus
        omega
      exact other (aux.symm.trans updated.same)

/-- An accepted request leaves the server in step with the chain exactly if its nullifier is a field element. -/
theorem in_step_iff (reached : Reachable (wordHash H) db)
    (ready : prepare req (loadState db req.key []) = .ok (.ok (prevCount, inputs), st))
    (accepted : Accepted G account req inputs w) :
    InStep H db req w.rootStateNew ↔ req.nu.toNat < scalarModulus := by
  constructor
  · intro inStep
    by_contra overflow
    exact not_in_step_of_overflow reached.kept ready accepted (Nat.not_lt.1 overflow) inStep
  · exact in_step_of_canonical reached.kept ready accepted

end inStep

namespace FirstRequest

-- The first relayed message, and the leaf that the server writes for the same nullifier plus the field's order.
def hash : IdealHash Fr :=
  .ofTable (DoubleRelay.table ++ [([4891460686036598790, 1, 1], 230), ([230, 211], 231)])
    (by decide +kernel) (by decide +kernel)

def gadgets : Gadgets hash := .documented hash (fun _ pk => pk) fun _ _ _ _ => False

def request (nu : Word) : RelayRequest := { msgHash := 1, nu, targetProgram := 0, stateId := 0 }

def inputs (nu : Word) : RelayInputs where
  rootQuotaOld := 0
  rootUniqOld := 0
  msgHash := 1
  msgLimit := 3
  nu := nu
  countOld := 0
  siblingsQuota := List.replicate stateDepth 0
  noAuxQuota := true
  auxKeyQuota := 0
  auxValueQuota := 0
  siblingsUniq := List.replicate stateDepth 0
  noAuxUniq := true
  auxKeyUniq := 0
  auxValueUniq := 0

def account : Program.RelayerState := { rootState := ofFr hash00, fee := 0, msgLimit := 3, endTime := 0 }

def db : DB := fun _ _ => none

theorem ready (nu : Word) :
    prepare (request nu) (loadState db (request nu).key []) =
      .ok (.ok (0, inputs nu), loadState db (request nu).key []) := by
  have proof (cf : ColumnFamily) (keyPrefix : List UInt8) (key : Word) :
      getProof stateDepth key (RocksStore.new db cf [] keyPrefix) =
        .ok (.ok (proofOf key (List.replicate stateDepth 0) .empty), RocksStore.new db cf [] keyPrefix) := by
    obtain ⟨hashes, beside, run⟩ :=
      getProof_run key (RocksStore.stores_new (wordHash hash) stateDepth cf keyPrefix) (by decide) (by decide)
    cases beside
    exact run
  refine (Exec.bind_ok (onQuota_ok (proof _ _ _))).trans ?_
  refine (Exec.bind_ok (onUniq_ok (proof _ _ _))).trans ?_
  rfl

theorem first_constraints : DoubleRelay.first.Constraints gadgets :=
  DoubleRelay.first_constraints_of _ _ (by decide +kernel) (by decide +kernel) (by decide +kernel)
    (by decide +kernel)
    (by decide +kernel)

theorem accepted {nu : Word} (reduced : reduce nu = 5) :
    Accepted gadgets account (request nu) (inputs nu) DoubleRelay.first := by
  have zero : (0 : Fr) = reduce 0 := by decide +kernel
  have zeros : List.ofFn (fun _ : Fin stateDepth => (0 : Fr)) = (List.replicate stateDepth 0).map reduce := by
    decide +kernel
  have one : (1 : Fr) = reduce 1 := by decide +kernel
  have signals : DoubleRelay.first.publicSignals.map ofFr =
      Program.ZkRelayer.relayPublicInputs account (ofFr DoubleRelay.first.rootStateNew)
        (ofFr DoubleRelay.first.nuHash) 1 := by decide +kernel
  refine ⟨⟨zero, zero, one, rfl, reduced.symm, ?_, zeros, rfl, zero, zero, zeros, rfl, zero, zero, ?_, ?_⟩,
    first_constraints, signals⟩
  · exact Nat.cast_zero.symm
  · decide +kernel
  · decide +kernel

theorem in_step_iff_five : InStep hash db (request 5) DoubleRelay.first.rootStateNew ↔
    (5 : Word).toNat < scalarModulus :=
  in_step_iff .empty (ready 5) (accepted (by decide +kernel))

def overflowing : Word :=
  21888242871839275222246405745257275088548364400416034343698204186575808495622

theorem not_in_step_overflowing :
    Reachable (wordHash hash) db ∧
      prepare (request overflowing) (loadState db (request overflowing).key []) =
        .ok (.ok (0, inputs overflowing), loadState db (request overflowing).key []) ∧
      Accepted gadgets account (request overflowing) (inputs overflowing) DoubleRelay.first ∧
      ¬ InStep hash db (request overflowing) DoubleRelay.first.rootStateNew := by
  have taken := accepted (show reduce overflowing = 5 by decide +kernel)
  refine ⟨.empty, ready _, taken, not_in_step_of_overflow ?_ (ready _) taken (by decide +kernel)⟩
  exact (Reachable.empty : Reachable (wordHash hash) db).kept

end FirstRequest

end Mootvote.Relayer
