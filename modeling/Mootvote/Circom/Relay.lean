import Mootvote.Circom.Gadgets
import Mootvote.Shared.Steps

set_option autoImplicit false

namespace Mootvote

open Shared SparseMerkle

variable {H : IdealHash Fr} {depth : Nat}

structure Relay (depth : Nat) where
  msgHash : Fr
  msgLimit : Fr
  rootStateOld : Fr
  rootStateNew : Fr
  nuHash : Fr
  nu : Fr
  rootQuotaOld : Fr
  rootUniqOld : Fr
  countOld : Fr
  siblingsQuota : Fin depth → Fr
  noAuxQuota : Fr
  auxKeyQuota : Fr
  auxValueQuota : Fr
  siblingsUniq : Fin depth → Fr
  noAuxUniq : Fr
  auxKeyUniq : Fr
  auxValueUniq : Fr
  nuLo : Fr
  nuHi : Fr
  rootQuotaNew : Fr
  rootUniqNew : Fr

namespace Relay

variable (w : Relay depth)

def isOldEmpty : Fr := isZero w.countOld

def quotaVerifier : SMTVerifier :=
  { enabled := 1, root := w.rootQuotaOld, siblings := List.ofFn w.siblingsQuota, oldKey := w.auxKeyQuota,
    oldValue := w.auxValueQuota, isOld0 := w.noAuxQuota, key := w.nuLo, value := w.countOld,
      fnc := w.isOldEmpty }

def quotaProcessor : SMTProcessor :=
  { oldRoot := w.rootQuotaOld, siblings := List.ofFn w.siblingsQuota, oldKey := w.auxKeyQuota,
    oldValue := w.auxValueQuota, isOld0 := w.noAuxQuota, newKey := w.nuLo, newValue := w.countOld + 1,
    fnc := (w.isOldEmpty, 1 - w.isOldEmpty), newRoot := w.rootQuotaNew }

def uniqVerifier : SMTVerifier :=
  { enabled := 1, root := w.rootUniqOld, siblings := List.ofFn w.siblingsUniq, oldKey := w.auxKeyUniq,
    oldValue := w.auxValueUniq, isOld0 := w.noAuxUniq, key := w.msgHash, value := 0, fnc := 1 }

def uniqProcessor : SMTProcessor :=
  { oldRoot := w.rootUniqOld, siblings := List.ofFn w.siblingsUniq, oldKey := w.auxKeyUniq,
    oldValue := w.auxValueUniq, isOld0 := w.noAuxUniq, newKey := w.msgHash, newValue := 1, fnc := (1, 0),
    newRoot := w.rootUniqNew }

structure Constraints (G : Gadgets H) : Prop where
  isWithinQuota : LessThan 16 w.countOld w.msgLimit 1
  -- nuLo and nuHi are hints: this is the only constraint that mentions nuHi.
  nuSplit : w.nu = w.nuLo + w.nuHi * 2 ^ depth
  quotaVerifier : G.smtVerifier w.quotaVerifier
  quotaProcessor : G.smtProcessor w.quotaProcessor
  uniqVerifier : G.smtVerifier w.uniqVerifier
  uniqProcessor : G.smtProcessor w.uniqProcessor
  nuHash : H.hash [w.nu, w.msgHash] = some w.nuHash
  rootStateOld : H.hash [w.rootQuotaOld, w.rootUniqOld] = some w.rootStateOld
  rootStateNew : H.hash [w.rootQuotaNew, w.rootUniqNew] = some w.rootStateNew

def publicSignals : List Fr := [w.rootStateOld, w.rootStateNew, w.nuHash, w.msgHash, w.msgLimit]

def CanonicalKey : Prop := CanonicalSplit depth w.nuLo w.nuHi

instance : Decidable w.CanonicalKey := inferInstanceAs (Decidable (CanonicalSplit _ _ _))

def OpensTo (H : IdealHash Fr) (nu : Fr) : Prop := ∃ msgHash, H.hash [nu, msgHash] = some w.nuHash

/-- A proof takes the relayer state from one root to the next under a message limit. -/
structure Step (G : Gadgets H) (msgLimit root : Fr) (w : Relay depth) (root' : Fr) : Prop where
  constraints : w.Constraints G
  limit : w.msgLimit = msgLimit
  old : w.rootStateOld = root
  new : w.rootStateNew = root'

variable {G : Gadgets H} {w} {t : SparseTree Fr}

inductive QuotaEffect (w : Relay depth) (t : SparseTree Fr) : SparseTree Fr → Prop
  | first {t' : SparseTree Fr} (zero : w.countOld = 0) (absent : t.lookup w.nuLo 0 = none)
      (done : t.add w.nuLo 1 depth 0 = some t') : QuotaEffect w t t'
  | again {t' : SparseTree Fr} (nonzero : w.countOld ≠ 0) (stored : t.lookup w.nuLo 0 = some w.countOld)
      (done : t.set w.nuLo (w.countOld + 1) 0 = some (w.countOld, t')) : QuotaEffect w t t'

theorem Constraints.quota (constraints : w.Constraints G) (boolean : Boolean w.noAuxQuota)
    (committed : t.commit H = some w.rootQuotaOld) :
    ∃ t', t'.commit H = some w.rootQuotaNew ∧ QuotaEffect w t t' := by
  by_cases zero : w.countOld = 0
  · have empty : w.isOldEmpty = 1 := by rw [isOldEmpty, isZero, if_pos zero]
    have absent := (G.exclusion w.quotaVerifier constraints.quotaVerifier rfl boolean empty).lookup committed
    obtain ⟨t', done, committed'⟩ := (G.insertion w.quotaProcessor constraints.quotaProcessor boolean
      (by simp [Relay.quotaProcessor, empty])).add committed
    rw [show w.quotaProcessor.opening.siblings.length = depth from List.length_ofFn,
      show w.quotaProcessor.newValue = 1 by simp [Relay.quotaProcessor, zero]] at done
    exact ⟨t', committed', .first zero absent done⟩
  · have present : w.isOldEmpty = 0 := by rw [isOldEmpty, isZero, if_neg zero]
    have stored := (G.inclusion w.quotaVerifier constraints.quotaVerifier rfl boolean
      present).lookup committed
    obtain ⟨t', done, committed'⟩ := (G.update w.quotaProcessor constraints.quotaProcessor boolean
      (by simp [Relay.quotaProcessor, present])).set committed
    have same := (SparseTree.lookup_of_set done).symm.trans stored
    rw [Option.some.injEq] at same
    rw [same] at done
    exact ⟨t', committed', .again zero stored done⟩

theorem Constraints.uniq (asked : G.SoundAsAsked) (constraints : w.Constraints G)
    (committed : t.commit H = some w.rootUniqOld) :
    t.lookup w.msgHash 0 = none ∧
      ∃ t', t'.commit H = some w.rootUniqNew ∧ t.add w.msgHash 1 depth 0 = some t' := by
  have absent := (asked.exclusion w.uniqVerifier constraints.uniqVerifier rfl rfl).lookup committed
  obtain ⟨t', done, committed'⟩ := (asked.insertion w.uniqProcessor constraints.uniqProcessor
    rfl).add committed
  rw [show w.uniqProcessor.opening.siblings.length = depth from List.length_ofFn] at done
  exact ⟨absent, t', committed', done⟩

theorem Constraints.nu_eq (constraints : w.Constraints G) {nu : Fr} (opens : w.OpensTo H nu) : w.nu = nu := by
  obtain ⟨msgHash, hashed⟩ := opens
  have same := H.injective constraints.nuHash hashed
  simp only [List.cons.injEq] at same
  exact same.1

end Relay

def relayedUnder (ws : List (Relay depth)) (key : Fr) : Nat := ws.countP fun w => w.nuLo = key

theorem relayedUnder_snoc (ws : List (Relay depth)) (w : Relay depth) (key : Fr) :
    relayedUnder (ws ++ [w]) key = relayedUnder ws key + if w.nuLo = key then 1 else 0 := by
  simp [relayedUnder, List.countP_append, List.countP_singleton]

/-- The quota tree counts, for each leaf key, the steps that used it, and none above the limit. -/
structure QuotaCounts (H : IdealHash Fr) (msgLimit : Nat) (ws : List (Relay depth)) (rootQuota : Fr)
    (t : SparseTree Fr) :
    Prop where
  committed : t.commit H = some rootQuota
  ordered : t.Ordered 0
  counts : ∀ key, t.lookup key 0 = none ∧ relayedUnder ws key = 0 ∨
    t.lookup key 0 = some ((relayedUnder ws key : Nat) : Fr) ∧ 0 < relayedUnder ws key ∧
      relayedUnder ws key ≤ msgLimit

namespace QuotaCounts

variable {G : Gadgets H} {msgLimit : Nat} {ws : List (Relay depth)} {w : Relay depth} {t : SparseTree Fr}

theorem bound {root : Fr} (counted : QuotaCounts H msgLimit ws root t) (key : Fr) :
    relayedUnder ws key ≤ msgLimit := by
  rcases counted.counts key with ⟨_, zero⟩ | ⟨_, _, bound⟩ <;> omega

theorem countOld (counted : QuotaCounts H msgLimit ws w.rootQuotaOld t) {t' : SparseTree Fr}
    (effect : Relay.QuotaEffect w t t') :
    w.countOld = ((relayedUnder ws w.nuLo : Nat) : Fr) := by
  cases effect with
  | first zero absent _ =>
      rcases counted.counts w.nuLo with ⟨_, none⟩ | ⟨stored, _⟩
      · rw [zero, none, Nat.cast_zero]
      · rw [absent] at stored
        cases stored
  | again _ stored _ =>
      rcases counted.counts w.nuLo with ⟨absent, _⟩ | ⟨stored', _⟩
      · rw [stored] at absent
        cases absent
      · rw [stored, Option.some.injEq] at stored'
        exact stored'

theorem step (counted : QuotaCounts H msgLimit ws w.rootQuotaOld t) (bounded : msgLimit < 2 ^ 16)
    (constraints : w.Constraints G) (limit : w.msgLimit = (msgLimit : Nat)) (boolean : Boolean w.noAuxQuota) :
    ∃ t', QuotaCounts H msgLimit (ws ++ [w]) w.rootQuotaNew t' := by
  obtain ⟨t', committed, effect⟩ := constraints.quota boolean counted.committed
  have count := counted.countOld effect
  have below : relayedUnder ws w.nuLo < msgLimit := by
    have compared := constraints.isWithinQuota
    rw [count, limit] at compared
    have before := counted.bound w.nuLo
    exact (compared.sound (by omega) (by omega) (by omega)).1 rfl
  -- The leaf under the step's key takes the new count, every other leaf keeps its own.
  suffices t'.Ordered 0 ∧ ∀ key, t'.lookup key 0 =
      if key = w.nuLo then some ((relayedUnder ws w.nuLo + 1 : Nat) : Fr) else t.lookup key 0 by
    obtain ⟨ordered, lookup⟩ := this
    refine ⟨t', committed, ordered, fun key => ?_⟩
    rw [lookup, relayedUnder_snoc]
    by_cases same : key = w.nuLo
    · subst same
      right
      rw [if_pos rfl, if_pos rfl]
      exact ⟨rfl, by omega, by omega⟩
    · rw [if_neg same, if_neg (Ne.symm same)]
      exact counted.counts key
  cases effect with
  | first zero _ done =>
      rw [zero] at count
      refine ⟨SparseTree.add_ordered counted.ordered done, fun key => ?_⟩
      rw [SparseTree.lookup_add counted.ordered done, Nat.cast_succ, ← count, zero_add]
  | again _ _ done =>
      refine ⟨SparseTree.set_ordered counted.ordered done, fun key => ?_⟩
      rw [SparseTree.lookup_set counted.ordered done, Nat.cast_succ, ← count]

end QuotaCounts

/-- `HASH_0_0` of `create_relayer_state.rs`, the root state of two empty trees. -/
def hash00 : Fr := 14744269619966411208579211824598458697587494354926760081771325075741142829156

def QuotaKeysAsIntended (ws : List (Relay depth)) : Prop := ∀ w ∈ ws, Boolean w.noAuxQuota ∧ w.CanonicalKey

instance (ws : List (Relay depth)) : Decidable (QuotaKeysAsIntended ws) :=
  inferInstanceAs (Decidable (∀ w ∈ ws, _ ∧ _))

theorem quota_run {G : Gadgets H} {msgLimit : Nat} {ws : List (Relay depth)} {root : Fr}
    (bounded : msgLimit < 2 ^ 16) (initial : H.hash [0, 0] = some hash00)
    (run : Steps (Relay.Step G msgLimit) hash00 ws root) (intended : QuotaKeysAsIntended ws) :
    ∃ t rootQuota rootUniq, H.hash [rootQuota, rootUniq] = some root ∧
    QuotaCounts H msgLimit ws rootQuota t := by
  refine run.invariant (I := fun past root => ∃ t rootQuota rootUniq,
    H.hash [rootQuota, rootUniq] = some root ∧ QuotaCounts H msgLimit past rootQuota t) ?_ ?_
  · exact ⟨.empty, 0, 0, initial, rfl, trivial, fun key => .inl ⟨rfl, rfl⟩⟩
  · rintro past _ w _ member ⟨t, rootQuota, rootUniq, state, counted⟩ ⟨constraints, limit, rfl, rfl⟩
    have same := H.injective state constraints.rootStateOld
    simp only [List.cons.injEq, and_true] at same
    rw [same.1] at counted
    obtain ⟨t', counted'⟩ := counted.step bounded constraints limit (intended w member).1
    exact ⟨t', w.rootQuotaNew, w.rootUniqNew, constraints.rootStateNew, counted'⟩

open Classical in
/-- No nullifier is relayed more often than the limit allows, if every step uses its intended leaf key. -/
theorem relay_quota {G : Gadgets H} {msgLimit : Nat} {ws : List (Relay depth)} {root : Fr}
    (bounded : msgLimit < 2 ^ 16) (initial : H.hash [0, 0] = some hash00)
    (run : Steps (Relay.Step G msgLimit) hash00 ws root) (intended : QuotaKeysAsIntended ws) (nu : Fr) :
    (ws.countP fun w => w.OpensTo H nu) ≤ msgLimit := by
  obtain ⟨t, rootQuota, rootUniq, _, counted⟩ := quota_run bounded initial run intended
  refine le_trans (List.countP_mono_left ?_) (counted.bound ((nu.val % 2 ^ depth : Nat) : Fr))
  intro w member opens
  obtain ⟨_, _, step⟩ := run.step_of_mem member
  have key := CanonicalSplit.lo_eq (intended w member).2 step.constraints.nuSplit
  rw [step.constraints.nu_eq (of_decide_eq_true opens)] at key
  exact decide_eq_true key

namespace DoubleRelay

def table : List (List Fr × Fr) :=
  [([0, 0], hash00),
    ([5, 1, 1], 201), ([5, 2, 1], 202), ([5, 3, 1], 203), ([4, 1, 1], 204), ([204, 203], 205),
    ([1, 1, 1], 211), ([2, 1, 1], 212), ([212, 211], 213), ([12, 1, 1], 214), ([214, 212], 215),
      ([215, 211], 216),
    ([8, 1, 1], 217), ([217, 214], 218), ([218, 212], 219), ([219, 211], 220),
    ([201, 211], 221), ([202, 213], 222), ([203, 216], 223), ([205, 220], 224),
    ([5, 1], 225), ([5, 2], 226), ([5, 12], 227), ([5, 8], 228),
    ([4, 9, 1], -1), ([201, -40401], 329), ([211, -44521], 330), ([-25527, -24898], 331)]

def hash : IdealHash Fr := .ofTable table (by decide +kernel) (by decide +kernel)

def gadgets : Gadgets hash := .documented hash (fun _ pk => pk) fun _ _ _ _ => False

def first : Relay 64 where
  msgHash := 1
  msgLimit := 3
  rootStateOld := hash00
  rootStateNew := 221
  nuHash := 225
  nu := 5
  rootQuotaOld := 0
  rootUniqOld := 0
  countOld := 0
  siblingsQuota := fun _ => 0
  noAuxQuota := 1
  auxKeyQuota := 0
  auxValueQuota := 0
  siblingsUniq := fun _ => 0
  noAuxUniq := 1
  auxKeyUniq := 0
  auxValueUniq := 0
  nuLo := 5
  nuHi := 0
  rootQuotaNew := 201
  rootUniqNew := 211

def second : Relay 64 :=
  { first with
    msgHash := 2, rootStateOld := 221, rootStateNew := 222, nuHash := 226, rootQuotaOld := 201,
      rootUniqOld := 211
    countOld := 1, noAuxQuota := 0, auxKeyQuota := 5, auxValueQuota := 1
    noAuxUniq := 0, auxKeyUniq := 1, auxValueUniq := 1, rootQuotaNew := 202, rootUniqNew := 213 }

def third : Relay 64 :=
  { second with
    msgHash := 12, rootStateOld := 222, rootStateNew := 223, nuHash := 227, rootQuotaOld := 202,
      rootUniqOld := 213
    countOld := 2, auxValueQuota := 2, siblingsUniq := fun i => if i = 0 then 211 else 0
    auxKeyUniq := 2, rootQuotaNew := 203, rootUniqNew := 216 }

/-- The step over the limit: `5 = 4 + 2^-64 * 2^64`, and leaf 4 is empty. -/
def fourth : Relay 64 :=
  { third with
    msgHash := 8, rootStateOld := 223, rootStateNew := 224, nuHash := 228, rootQuotaOld := 203,
      rootUniqOld := 216
    countOld := 0, auxValueQuota := 3,
    siblingsUniq := fun i => if i = 0 then 211 else if i = 1 then 212 else 0
    auxKeyUniq := 12, rootQuotaNew := 205, rootUniqNew := 220, nuLo := 4
    nuHi := 16662651760482593750343275155358532940078388361286693648211298903031153094221 }

theorem first_constraints_of {H : IdealHash Fr} (ecdh : Fr → Fr × Fr → Fr × Fr)
    (poseidonDecrypt : Fr × Fr → Fr → (Fin ctLen → Fr) → (Fin pad → Fr) → Prop)
    (quotaLeaf : H.hash [5, 1, 1] = some 201) (uniqLeaf : H.hash [1, 1, 1] = some 211)
    (nuHash : H.hash [5, 1] = some 225) (rootStateOld : H.hash [0, 0] = some hash00)
    (rootStateNew : H.hash [201, 211] = some 221) :
      first.Constraints (.documented H ecdh poseidonDecrypt) where
  isWithinQuota := ⟨by decide +kernel, by decide +kernel⟩
  nuSplit := by decide +kernel
  quotaVerifier := .inr ⟨rfl, .inr rfl, .inr ⟨by decide +kernel,
    Opening.verifies_empty (by decide +kernel) (by decide +kernel) (by decide +kernel)⟩⟩
  quotaProcessor := .inr ⟨.inr rfl, .inl ⟨by decide +kernel,
    Opening.inserts_empty (by decide +kernel) (by decide +kernel) (by decide +kernel)
      (by rwa [show first.quotaProcessor.newValue = 1 by decide +kernel])⟩⟩
  uniqVerifier := .inr ⟨rfl, .inr rfl, .inr ⟨rfl,
    Opening.verifies_empty (by decide +kernel) (by decide +kernel) (by decide +kernel)⟩⟩
  uniqProcessor := .inr ⟨.inr rfl, .inl ⟨rfl,
    Opening.inserts_empty (by decide +kernel) (by decide +kernel) (by decide +kernel) uniqLeaf⟩⟩
  nuHash := nuHash
  rootStateOld := rootStateOld
  rootStateNew := rootStateNew

theorem first_constraints : first.Constraints gadgets :=
  first_constraints_of _ _ (by decide +kernel) (by decide +kernel) (by decide +kernel) (by decide +kernel)
    (by decide +kernel)

theorem second_constraints : second.Constraints gadgets where
  isWithinQuota := ⟨by decide +kernel, by decide +kernel⟩
  nuSplit := by decide +kernel
  quotaVerifier := .inr ⟨rfl, .inl rfl, .inl ⟨by decide +kernel, by decide +kernel, by decide +kernel⟩⟩
  quotaProcessor := .inr ⟨.inl rfl, .inr ⟨by decide +kernel, by decide +kernel,
    rfl, by decide +kernel, by decide +kernel⟩⟩
  uniqVerifier := .inr ⟨rfl, .inl rfl, .inr ⟨rfl, by decide +kernel, by decide +kernel⟩⟩
  uniqProcessor := .inr ⟨.inl rfl, .inl ⟨rfl, by decide +kernel, by decide +kernel, by decide +kernel⟩⟩
  nuHash := by decide +kernel
  rootStateOld := by decide +kernel
  rootStateNew := by decide +kernel

theorem third_constraints : third.Constraints gadgets where
  isWithinQuota := ⟨by decide +kernel, by decide +kernel⟩
  nuSplit := by decide +kernel
  quotaVerifier := .inr ⟨rfl, .inl rfl, .inl ⟨by decide +kernel, by decide +kernel, by decide +kernel⟩⟩
  quotaProcessor := .inr ⟨.inl rfl, .inr ⟨by decide +kernel, by decide +kernel,
    rfl, by decide +kernel, by decide +kernel⟩⟩
  uniqVerifier := .inr ⟨rfl, .inl rfl, .inr ⟨rfl, by decide +kernel, by decide +kernel⟩⟩
  uniqProcessor := .inr ⟨.inl rfl, .inl ⟨rfl, by decide +kernel, by decide +kernel, by decide +kernel⟩⟩
  nuHash := by decide +kernel
  rootStateOld := by decide +kernel
  rootStateNew := by decide +kernel

theorem fourth_constraints : fourth.Constraints gadgets where
  isWithinQuota := ⟨by decide +kernel, by decide +kernel⟩
  nuSplit := by decide +kernel
  quotaVerifier := .inr ⟨rfl, .inl rfl, .inr ⟨by decide +kernel, by decide +kernel, by decide +kernel⟩⟩
  quotaProcessor := .inr ⟨.inl rfl, .inl ⟨by decide +kernel, by decide +kernel,
    by decide +kernel, by decide +kernel⟩⟩
  uniqVerifier := .inr ⟨rfl, .inl rfl, .inr ⟨rfl, by decide +kernel, by decide +kernel⟩⟩
  uniqProcessor := .inr ⟨.inl rfl, .inl ⟨rfl, by decide +kernel, by decide +kernel, by decide +kernel⟩⟩
  nuHash := by decide +kernel
  rootStateOld := by decide +kernel
  rootStateNew := by decide +kernel

theorem honest_run : Steps (Relay.Step gadgets (3 : Nat)) hash00 [first, second, third] 223 :=
  .cons ⟨first_constraints, rfl, rfl, rfl⟩ (.cons ⟨second_constraints, rfl, rfl, rfl⟩
    (.cons ⟨third_constraints, rfl, rfl, rfl⟩ (.nil _)))

open Classical in
theorem relay_quota_honest : ([first, second, third].countP fun w => w.OpensTo hash 5) ≤ 3 :=
  relay_quota (by decide) (by decide +kernel) honest_run (by decide +kernel) 5

open Classical in
theorem relay_quota_fails : ∃ (H : IdealHash Fr) (G : Gadgets H) (ws : List (Relay 64)) (root nu : Fr),
    H.hash [0, 0] = some hash00 ∧ Steps (Relay.Step G (3 : Nat)) hash00 ws root ∧
      (∀ w ∈ ws, Boolean w.noAuxQuota ∧ Boolean w.noAuxUniq) ∧ 3 < ws.countP fun w => w.OpensTo H nu := by
  refine ⟨hash, gadgets, [first, second, third] ++ [fourth], 224, 5, by decide +kernel,
    honest_run.snoc ⟨fourth_constraints, rfl, rfl, rfl⟩, by decide +kernel, ?_⟩
  have opens : first.OpensTo hash 5 ∧ second.OpensTo hash 5 ∧ third.OpensTo hash 5 ∧ fourth.OpensTo hash 5 :=
    ⟨⟨1, first_constraints.nuHash⟩, ⟨2, second_constraints.nuHash⟩, ⟨12, third_constraints.nuHash⟩,
      ⟨8, fourth_constraints.nuHash⟩⟩
  simp [opens]

end DoubleRelay

end Mootvote
