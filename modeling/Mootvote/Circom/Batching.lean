import Mootvote.Circom.Selectors
import Mootvote.Circom.TallyBatch

set_option autoImplicit false

/-!
# Cutting the messages into batches

The enabled entries of a batch are its first ones, whatever its length is said to be. Where the prover's
selectors are bits, the messages alone decide where a chain of batches ends.
-/

namespace Mootvote

open Shared SparseMerkle

variable {H : IdealHash Fr} {G : Gadgets H} {depth maxChoices maxBatch maxBatch' : Nat}

section comparator

variable {n : Nat} {b : Fr}

theorem LessThan.val_shift {i : Nat} (inside : i + ((2 : Fr) ^ n - b).val < scalarModulus) :
    ((i : Fr) + 2 ^ n - b).val = i + ((2 : Fr) ^ n - b).val := by
  have cast : (i : Fr) + 2 ^ n - b = ((i + ((2 : Fr) ^ n - b).val : Nat) : Fr) := by
    rw [Nat.cast_add, ZMod.natCast_zmod_val, add_sub_assoc]
  rw [cast, ZMod.val_natCast, Nat.mod_eq_of_lt inside]

theorem LessThan.prefix_of_counting {m : Nat} {out : Fin m → Fr} (small : n < 252)
    (compared : ∀ i : Fin m, LessThan n (i.val : Nat) b (out i)) :
    ∃ k, ∀ i, out i = if i.val < k then 1 else 0 := by
  have power : 2 ^ (n + 1) < 2 ^ 253 := Nat.pow_lt_pow_right (by decide) (by omega)
  have modulus := scalarModulus_gt
  have inside : ∀ i, i < m → i + ((2 : Fr) ^ n - b).val < 2 ^ (n + 1) := by
    intro i
    induction i with
    | zero =>
        intro some
        have fits := (compared ⟨0, some⟩).fits
        rwa [Nat.cast_zero, zero_add, ← Nat.zero_add ((2 : Fr) ^ n - b).val] at fits
    | succ i ih =>
        -- One more than a value that fits does not wrap around.
        intro later
        have before := ih (by omega)
        have fits : (((i + 1 : Nat) : Fr) + 2 ^ n - b).val < 2 ^ (n + 1) := (compared ⟨i + 1, later⟩).fits
        rwa [LessThan.val_shift (by omega)] at fits
  refine ⟨2 ^ n - ((2 : Fr) ^ n - b).val, fun i => ?_⟩
  have fits := inside i.val i.isLt
  rw [(compared i).out_eq, LessThan.val_shift (by omega)]
  exact if_congr (by omega) rfl rfl

end comparator

section batch

variable {w : Tally depth maxChoices maxBatch} {acc acc' : TallyAcc maxChoices}
  {es : List (TallySingle depth maxChoices)}

theorem TallySingle.filter_enabled (run : Steps (Step G) acc es acc') :
    Steps (Step G) acc (es.filter fun e => e.enabled = 1) acc' := by
  induction run with
  | nil => exact .nil _
  | @cons acc mid acc' e es first rest ih =>
      by_cases on : e.enabled = 1
      · rw [List.filter_cons_of_pos (by simpa using on)]
        exact .cons first ih
      · rw [List.filter_cons_of_neg (by simpa using on)]
        have same := first.constraints.disabled (first.boolean.resolve_right on)
        rw [first.new, first.old] at same
        rwa [same] at ih

/-- The first `k` entries are the steps of the batch. The others change nothing. -/
structure Tally.Takes (G : Gadgets H) (w : Tally depth maxChoices maxBatch) (k : Nat) : Prop where
  enabled : ∀ i, (w.tallySingle i).enabled = if i.val < k then 1 else 0
  steps : Steps (TallySingle.Step G)
    { root := w.rootOld, cumulativeMsgHash := w.cumulativeMsgHashOld, tally := w.tallyOld } (w.entries.take k)
    { root := w.rootNew, cumulativeMsgHash := w.cumulativeMsgHashNew,
      tally := w.tallyAcc (Fin.last maxBatch) }
  idle : ∀ i : Fin maxBatch, k ≤ i.val → w.acc i.succ = w.acc i.castSucc

theorem Tally.filter_entries {k : Nat}
    (enabled : ∀ i, (w.tallySingle i).enabled = if i.val < k then 1 else 0) :
    w.entries.filter (fun e => e.enabled = 1) = w.entries.take k := by
  have at_ {i : Nat} {e : TallySingle depth maxChoices} (found : w.entries[i]? = some e) :
      e.enabled = 1 ↔ i < k := by
    obtain ⟨below, rfl⟩ := List.getElem?_eq_some_iff.1 found
    simp [entries, enabled]
  have front : ∀ e ∈ w.entries.take k, e.enabled = 1 := by
    intro e member
    obtain ⟨i, found⟩ := List.mem_iff_getElem?.1 member
    rw [List.getElem?_take] at found
    split_ifs at found with below
    exact (at_ found).2 below
  have back : ∀ e ∈ w.entries.drop k, ¬e.enabled = 1 := by
    intro e member on
    obtain ⟨i, found⟩ := List.mem_iff_getElem?.1 member
    rw [List.getElem?_drop] at found
    have below := (at_ found).1 on
    omega
  calc w.entries.filter (fun e => e.enabled = 1)
      = (w.entries.take k ++ w.entries.drop k).filter fun e => e.enabled = 1 := by rw [List.take_append_drop]
    _ = w.entries.take k := by
        rw [List.filter_append, List.filter_eq_self.2 (by simpa using front),
          List.filter_eq_nil_iff.2 (by simpa using back), List.append_nil]

theorem Tally.Constraints.start (constraints : w.Constraints G) : w.acc 0 =
    { root := w.rootOld, cumulativeMsgHash := w.cumulativeMsgHashOld, tally := w.tallyOld } :=
  constraints.accZero

theorem Tally.Constraints.final (constraints : w.Constraints G) : w.acc (Fin.last maxBatch) =
    { root := w.rootNew, cumulativeMsgHash := w.cumulativeMsgHashNew,
      tally := w.tallyAcc (Fin.last maxBatch) } := by
  rw [constraints.rootNew, constraints.cumulativeMsgHashNew]
  rfl

theorem Tally.Constraints.takes (constraints : w.Constraints G) : ∃ k, w.Takes G k := by
  obtain ⟨k, enabled⟩ := LessThan.prefix_of_counting (by decide) constraints.enabled
  refine ⟨k, enabled, ?_, fun i later => ?_⟩
  · rw [← Tally.filter_entries enabled, ← constraints.start, ← constraints.final]
    exact TallySingle.filter_enabled constraints.run
  · rw [← constraints.accNew i, ← constraints.accOld i]
    exact (constraints.tallySingle i).disabled (by rw [enabled, if_neg (by omega)])

end batch

section unique

variable {w w' : TallySingle depth maxChoices} {t t1 t2 : SparseTree Fr} {acc acc1 acc2 : TallyAcc maxChoices}

namespace TallySingle

def LowKey (w : TallySingle depth maxChoices) : Prop := w.nuLo = ((w.ballot.nu.val % 2 ^ depth : Nat) : Fr)

instance (w : TallySingle depth maxChoices) : Decidable w.LowKey := inferInstanceAs (Decidable (_ = _))

theorem Constraints.stored_unique (constraints : w.Constraints G) (constraints' : w'.Constraints G)
    (on : w.enabled = 1) (on' : w'.enabled = 1) (controls : w.BooleanControls)
    (controls' : w'.BooleanControls)
    (committed : t.commit H = some w.rootOld) (committed' : t.commit H = some w'.rootOld)
    (key : w.nuLo = w'.nuLo) : w.wasLeafEmpty = w'.wasLeafEmpty ∧ w.choiceOld = w'.choiceOld ∧
      w.revotingKeyOld = w'.revotingKeyOld := by
  have found := constraints.lookup on controls committed
  rw [key, constraints'.lookup on' controls' committed'] at found
  have empty {v : TallySingle depth maxChoices} (constraints : v.Constraints G)
    (absent : v.wasLeafEmpty = 1) :
      v.choiceOld = 0 ∧ v.revotingKeyOld = v.hash0 := by
    refine ⟨by simpa [absent] using constraints.emptyChoice, sub_eq_zero.1 ?_⟩
    simpa [absent] using constraints.emptyKey
  rcases controls.2 with present | absent <;> rcases controls'.2 with present' | absent'
  · simp only [present, present', zero_ne_one, if_false, Option.some.injEq] at found
    have hashed := constraints.leafOld
    rw [← found] at hashed
    have same := H.injective hashed constraints'.leafOld
    simp only [List.cons.injEq, and_true] at same
    exact ⟨present.trans present'.symm, same⟩
  · simp [present, absent'] at found
  · simp [absent, present'] at found
  · have hash0 := constraints.hash0
    rw [constraints'.hash0, Option.some.injEq] at hash0
    obtain ⟨choice, revotingKey⟩ := empty constraints absent
    obtain ⟨choice', revotingKey'⟩ := empty constraints' absent'
    exact ⟨absent.trans absent'.symm, choice.trans choice'.symm, by rw [revotingKey, revotingKey', hash0]⟩

theorem Effect.unique (effect : Effect H w t t1) (effect' : Effect H w' t t2) (ballot : w.ballot = w'.ballot)
    (key : w.nuLo = w'.nuLo) (leafNew : w.leafNew = w'.leafNew) (empty : w.wasLeafEmpty = w'.wasLeafEmpty)
    (revotingKeyOld : w.revotingKeyOld = w'.revotingKeyOld) : t1 = t2 := by
  cases effect with
  | skipped mismatch =>
      rw [ballot, revotingKeyOld] at mismatch
      cases effect' with
      | skipped => rfl
      | inserted found | updated found => exact absurd found mismatch
  | inserted found absent done =>
      rw [ballot, revotingKeyOld] at found
      rw [empty] at absent
      cases effect' with
      | skipped mismatch => exact absurd found mismatch
      | inserted _ _ done' =>
          rw [key, leafNew, done'] at done
          exact (Option.some.inj done).symm
      | updated _ present =>
          rw [absent] at present
          exact absurd present one_ne_zero
  | updated found present done =>
      rw [ballot, revotingKeyOld] at found
      rw [empty] at present
      cases effect' with
      | skipped mismatch => exact absurd found mismatch
      | inserted _ absent =>
          rw [present] at absent
          exact absurd absent zero_ne_one
      | updated _ _ done' =>
          rw [key, leafNew, done', Option.some.injEq, Prod.mk.injEq] at done
          exact done.2.symm

theorem Constraints.next_unique (authentic : G.Authenticated) (constraints : w.Constraints G)
    (constraints' : w'.Constraints G) (on : w.enabled = 1) (on' : w'.enabled = 1)
    (controls : w.BooleanControls)
    (controls' : w'.BooleanControls) (low : w.LowKey) (low' : w'.LowKey)
    (committed : t.commit H = some w.rootOld) (old : w.accOld = w'.accOld)
    (message : w.message = w'.message) :
    w.accNew = w'.accNew ∧ ∃ t' : SparseTree Fr, t'.commit H = some w.rootNew := by
  have opens := constraints'.opens
  rw [← message] at opens
  have ballot := authentic _ _ _ constraints.opens opens
  have key : w.nuLo = w'.nuLo := by rw [low, low', ballot]
  simp only [accOld, TallyAcc.mk.injEq] at old
  obtain ⟨rootOld, hashOld, tallyOld⟩ := old
  have committed' := committed
  rw [rootOld] at committed'
  obtain ⟨empty, choiceOld, revotingKeyOld⟩ :=
    constraints.stored_unique constraints' on on' controls controls' committed committed' key
  have leafNew : w.leafNew = w'.leafNew := by
    have hashed := constraints.leafNew
    rw [ballot, constraints'.leafNew] at hashed
    exact (Option.some.inj hashed).symm
  obtain ⟨t1, committed1, effect⟩ := constraints.effect on controls committed
  obtain ⟨t2, committed2, effect'⟩ := constraints'.effect on' controls' committed'
  have rootNew : w.rootNew = w'.rootNew := by
    rw [effect.unique effect' ballot key leafNew empty revotingKeyOld, committed2] at committed1
    exact (Option.some.inj committed1).symm
  have msgHash : w.msgHash = w'.msgHash := by
    have hashed := constraints.msgHasher
    rw [message, constraints'.msgHasher] at hashed
    exact (Option.some.inj hashed).symm
  have hashNew : w.cumulativeMsgHashNew = w'.cumulativeMsgHashNew := by
    have absorbed := constraints.absorbs on
    rw [hashOld, msgHash, constraints'.absorbs on'] at absorbed
    exact (Option.some.inj absorbed).symm
  have valid : w.isVoteValid = w'.isVoteValid := by
    rw [isVoteValid, isVoteValid, revotingKeyMatches, revotingKeyMatches, on, on', ballot, revotingKeyOld]
  have tallyNew : w.tallyNew = w'.tallyNew := by
    funext i
    rw [constraints.tallyNew, constraints'.tallyNew, valid, choiceOld, ballot, tallyOld]
  exact ⟨by rw [accNew, accNew, rootNew, hashNew, tallyNew], t1, committed1⟩

structure Intended (w : TallySingle depth maxChoices) : Prop where
  on : w.enabled = 1
  controls : w.BooleanControls
  low : w.LowKey

theorem steps_unique (authentic : G.Authenticated) {es es' : List (TallySingle depth maxChoices)}
    (run : Steps (Step G) acc es acc1) (run' : Steps (Step G) acc es' acc2)
    (committed : t.commit H = some acc.root)
    (intended : ∀ e ∈ es, e.Intended) (intended' : ∀ e ∈ es', e.Intended)
    (messages : es.map message = es'.map message) : acc1 = acc2 := by
  induction run generalizing es' t with
  | nil =>
      rw [List.map_nil, eq_comm, List.map_eq_nil_iff] at messages
      subst messages
      exact Steps.nil_iff.1 run'
  | @cons acc mid acc1 e es first rest ih =>
      obtain ⟨e', es', rfl, message, messages⟩ := List.map_eq_cons_iff.1 messages.symm
      obtain ⟨mid', first', rest'⟩ := Steps.cons_iff.1 run'
      obtain ⟨constraints, _, rfl, rfl⟩ := first
      obtain ⟨constraints', _, old, rfl⟩ := first'
      obtain ⟨on, controls, low⟩ := intended e List.mem_cons_self
      obtain ⟨on', controls', low'⟩ := intended' e' List.mem_cons_self
      obtain ⟨same, t', committed'⟩ := constraints.next_unique authentic constraints' on on'
        controls controls'
        low low' committed old.symm message.symm
      rw [← same] at rest'
      exact ih rest' committed' (fun e member => intended e (List.mem_cons_of_mem _ member))
        (fun e member => intended' e (List.mem_cons_of_mem _ member)) messages.symm

end TallySingle

end unique

section cutting

variable {acc acc' : TallyAcc maxChoices} {s s' s1 s2 : TallyState}
  {ws : List (Tally depth maxChoices maxBatch)} {ws' : List (Tally depth maxChoices maxBatch')}

structure TallyState.Commits (H : IdealHash Fr) (s : TallyState) (acc : TallyAcc maxChoices) : Prop where
  root : s.root = acc.root
  cumulativeMsgHash : s.cumulativeMsgHash = acc.cumulativeMsgHash
  tally : ∃ salt, H.hash (salt :: List.ofFn acc.tally) = some s.tallyHash

theorem TallyState.tally_unique {salt salt' : Fr} {tally tally' : Fin maxChoices → Fr}
    (hashed : H.hash (salt :: List.ofFn tally) = some s.tallyHash)
    (hashed' : H.hash (salt' :: List.ofFn tally') = some s.tallyHash) : tally = tally' := by
  have same := H.injective hashed hashed'
  simp only [List.cons.injEq] at same
  exact List.ofFn_injective same.2

/-- Two accounts that agree in all but the salts of their tallies. -/
structure TallyState.SameOutcome (H : IdealHash Fr) (maxChoices : Nat) (s s' : TallyState) : Prop where
  root : s.root = s'.root
  cumulativeMsgHash : s.cumulativeMsgHash = s'.cumulativeMsgHash
  tally : ∀ (salt salt' : Fr) (tally tally' : Fin maxChoices → Fr),
    H.hash (salt :: List.ofFn tally) = some s.tallyHash →
      H.hash (salt' :: List.ofFn tally') = some s'.tallyHash → tally = tally'

theorem TallyState.Commits.sameOutcome (commits : s.Commits H acc) (commits' : s'.Commits H acc) :
    s.SameOutcome H maxChoices s' where
  root := commits.root.trans commits'.root.symm
  cumulativeMsgHash := commits.cumulativeMsgHash.trans commits'.cumulativeMsgHash.symm
  tally salt salt' tally tally' hashed hashed' := by
    obtain ⟨_, opened⟩ := commits.tally
    obtain ⟨_, opened'⟩ := commits'.tally
    exact (tally_unique hashed opened).trans (tally_unique opened' hashed')

namespace Tally

def enabledEntries (w : Tally depth maxChoices maxBatch) : List (TallySingle depth maxChoices) :=
  w.entries.filter fun e => e.enabled = 1

theorem map_enabledEntries (ws : List (Tally depth maxChoices maxBatch)) :
    (ws.flatMap enabledEntries).map TallySingle.message = ws.flatMap messages := by
  rw [List.map_flatMap]
  rfl

theorem Step.commits {w : Tally depth maxChoices maxBatch} (step : Step G s w s') :
    s.Commits H (w.acc 0) ∧ s'.Commits H (w.acc (Fin.last maxBatch)) := by
  obtain ⟨constraints, rfl, rfl⟩ := step
  rw [constraints.accZero]
  exact ⟨⟨rfl, rfl, _, constraints.tallyHashOld⟩,
    ⟨constraints.rootNew, constraints.cumulativeMsgHashNew, _, constraints.tallyHashNew⟩⟩

theorem cut_run (run : Steps (Step G) s ws s') (commits : s.Commits H acc) :
    ∃ acc', s'.Commits H acc' ∧ Steps (TallySingle.Step G) acc (ws.flatMap enabledEntries) acc' := by
  refine run.invariant (I := fun past mid =>
    ∃ acc', mid.Commits H acc' ∧ Steps (TallySingle.Step G) acc (past.flatMap enabledEntries) acc')
    ⟨acc, commits, .nil acc⟩ ?_
  rintro past mid w next _ ⟨acc', midCommits, before⟩ step
  obtain ⟨first, last⟩ := step.commits
  have joined : w.acc 0 = acc' := by
    obtain ⟨_, opened⟩ := first.tally
    obtain ⟨_, opened'⟩ := midCommits.tally
    rw [TallyAcc.mk.injEq]
    exact ⟨first.root.symm.trans midCommits.root,
      first.cumulativeMsgHash.symm.trans midCommits.cumulativeMsgHash,
      TallyState.tally_unique opened opened'⟩
  have entries := TallySingle.filter_enabled step.constraints.run
  rw [joined] at entries
  refine ⟨_, last, ?_⟩
  rw [List.flatMap_append, List.flatMap_singleton]
  exact Steps.append_iff.2 ⟨acc', before, entries⟩

theorem commits_of_run (run : Steps (Step G) s ws s') (started : ws ≠ []) :
    ∃ acc : TallyAcc maxChoices, s.Commits H acc := by
  cases run with
  | nil => exact absurd rfl started
  | cons first _ => exact ⟨_, first.commits.1⟩

def LowKeys (ws : List (Tally depth maxChoices maxBatch)) : Prop :=
  ∀ w ∈ ws, ∀ e ∈ w.entries, e.enabled = 1 → e.LowKey

def BooleanControls (ws : List (Tally depth maxChoices maxBatch)) : Prop :=
  ∀ w ∈ ws, ∀ e ∈ w.entries, e.enabled = 1 → e.BooleanControls

theorem intended (controls : BooleanControls ws) (low : LowKeys ws) :
    ∀ e ∈ ws.flatMap enabledEntries, e.Intended := by
  intro e member
  obtain ⟨w, inside, enabled⟩ := List.mem_flatMap.1 member
  obtain ⟨entry, on⟩ := List.mem_filter.1 enabled
  have on := of_decide_eq_true on
  exact ⟨on, controls w inside e entry on, low w inside e entry on⟩

theorem cut_unique (authentic : G.Authenticated) {t : SparseTree Fr} (committed : t.commit H = some s.root)
    (run : Steps (Step G) s ws s1) (run' : Steps (Step G) s ws' s2) (low : LowKeys ws) (low' : LowKeys ws')
    (controls : BooleanControls ws) (controls' : BooleanControls ws')
    (same : ws.flatMap messages = ws'.flatMap messages) : s1.SameOutcome H maxChoices s2 := by
  by_cases started : ws = [] ∧ ws' = []
  · obtain ⟨rfl, rfl⟩ := started
    rw [← Steps.nil_iff.1 run, ← Steps.nil_iff.1 run']
    exact ⟨rfl, rfl, fun _ _ _ _ hashed hashed' => TallyState.tally_unique hashed hashed'⟩
  · obtain ⟨acc, commits⟩ : ∃ acc : TallyAcc maxChoices, s.Commits H acc := by
      by_cases none : ws = []
      · exact commits_of_run run' fun none' => started ⟨none, none'⟩
      · exact commits_of_run run none
    obtain ⟨acc1, commits1, steps⟩ := cut_run run commits
    obtain ⟨acc2, commits2, steps'⟩ := cut_run run' commits
    rw [commits.root] at committed
    have joined := TallySingle.steps_unique authentic steps steps' committed (intended controls low)
      (intended controls' low') (by rw [map_enabledEntries, map_enabledEntries, same])
    subst joined
    exact commits1.sameOutcome commits2

end Tally

/-- Batches take their enabled prefix. Provers whose selectors are bits cut one list of messages as they like. -/
theorem batching_transparent (authentic : G.Authenticated) :
    (∀ w : Tally depth maxChoices maxBatch, w.Constraints G → ∃ k, w.Takes G k) ∧
    ∀ (s s1 s2 : TallyState) (ws : List (Tally depth maxChoices maxBatch))
      (ws' : List (Tally depth maxChoices maxBatch')) (t : SparseTree Fr), t.commit H = some s.root →
      Steps (Tally.Step G) s ws s1 → Steps (Tally.Step G) s ws' s2 → Tally.LowKeys ws → Tally.LowKeys ws' →
      ws.flatMap Tally.messages = ws'.flatMap Tally.messages →
      Tally.BooleanControls ws → Tally.BooleanControls ws' → s1.SameOutcome H maxChoices s2 :=
  ⟨fun _ constraints => constraints.takes, fun _ _ _ _ _ _ committed run run' low low' same
    controls controls' =>
    Tally.cut_unique authentic committed run run' low low' controls controls' same⟩

end cutting

namespace DoubleCount

/-- The second message as the circuit should take it: its old key is not the one on record for leaf 5. -/
def skipped : TallySingle 64 11 :=
  { second with
    choiceOld := 1
    revotingKeyOld := 7
    noAux := 0
    auxKey := 0
    auxValue := 0
    wasLeafEmpty := 0
    rootNew := 107
    tallyNew := counts 1
    leafOld := 102
    nuLo := 5
    nuHi := 0 }

theorem skipped_constraints : skipped.Constraints gadgets where
  msgHasher := second_constraints.msgHasher
  decrypt := first_constraints.decrypt
  leafOld := by decide +kernel
  leafNew := first_constraints.leafNew
  nuSplit := first_constraints.nuSplit
  emptyChoice := by decide +kernel
  hash0 := first_constraints.hash0
  emptyKey := by decide +kernel
  verifier := .inr ⟨rfl, .inl rfl, .inl ⟨rfl, by decide +kernel, by decide +kernel⟩⟩
  processor := .inl ⟨by decide +kernel, rfl⟩
  tallyNew := by decide +kernel
  cumulativeMsgHash := second_constraints.cumulativeMsgHash
  cumulativeMsgHashNew := second_constraints.cumulativeMsgHashNew

local instance (priority := 2000) six_neZero : NeZero (5 + 1) := ⟨by decide⟩

local instance (priority := 2000) seven_neZero : NeZero (6 + 1) := ⟨by decide⟩

def skipBatch (whole : Bool) : Tally 64 11 6 :=
  { batch false with
    rootOld := if whole then 0 else 107
    cumulativeMsgHashOld := if whole then 0 else 105
    tallyHashOld := if whole then 110 else 111
    cumulativeMsgHashNew := 106
    batchLen := if whole then 2 else 1
    tallyOld := if whole then counts 0 else counts 1
    tallySaltOld := if whole then 8 else 9
    rootAcc := fun i => if whole ∧ i = 0 then 0 else 107
    cumulativeMsgHashAcc :=
      if whole then ![0, 105, 106, 106, 106, 106, 106] else ![105, 106, 106, 106, 106, 106, 106]
    tallyAcc := fun i => if whole ∧ i = 0 then counts 0 else counts 1
    tallySingle := fun i =>
      if whole then if i = 0 then first else if i = 1 then skipped else idle 107 106 112 (counts 1)
      else if i = 0 then skipped else idle 107 106 112 (counts 1) }

theorem skipBatch_constraints (whole : Bool) : (skipBatch whole).Constraints gadgets where
  tallyHashOld := by cases whole <;> decide +kernel
  isFirstBatch := by decide +revert +kernel
  accZero := by cases whole <;> rfl
  enabled i := by
    cases whole <;> fin_cases i <;> constructor <;> decide +kernel
  accOld i := by cases whole <;> fin_cases i <;> rfl
  accNew i := by cases whole <;> fin_cases i <;> rfl
  tallierSk i := by cases whole <;> fin_cases i <;> rfl
  tallySingle i := by
    have idleBoth := idle_constraints 107 (counts 1) (show hash.hash [106, 104] = some 112 by decide +kernel)
    unfold skipBatch
    dsimp only
    split_ifs
    exacts [first_constraints, skipped_constraints, idleBoth, skipped_constraints, idleBoth]
  cumulativeMsgHashNew := by cases whole <;> rfl
  tallyHashNew := by cases whole <;> decide +kernel
  rootNew := by cases whole <;> rfl

theorem apart_run : Steps (Tally.Step gadgets) fresh [batch false, skipBatch false]
    (skipBatch false).stateNew :=
  .cons ⟨batch_constraints false, rfl, rfl⟩ (.cons ⟨skipBatch_constraints false, rfl, rfl⟩ (.nil _))

theorem whole_run : Steps (Tally.Step gadgets) fresh [skipBatch true] (skipBatch true).stateNew :=
  .cons ⟨skipBatch_constraints true, rfl, rfl⟩ (.nil _)

theorem batching_transparent_two : (∃ k, (skipBatch true).Takes gadgets k) ∧
    TallyState.SameOutcome hash 11 (skipBatch false).stateNew (skipBatch true).stateNew := by
  obtain ⟨takes, cuts⟩ := @batching_transparent hash gadgets 64 11 6 6 authenticated
  have low : Tally.LowKeys [batch false, skipBatch false] ∧ Tally.LowKeys [skipBatch true] := by
    simp only [Tally.LowKeys, List.forall_mem_cons, Tally.entries, List.forall_mem_ofFn_iff]
    decide +kernel
  have controls : Tally.BooleanControls [batch false, skipBatch false] ∧
    Tally.BooleanControls [skipBatch true] := by
    simp only [Tally.BooleanControls, List.forall_mem_cons, Tally.entries, List.forall_mem_ofFn_iff]
    decide +kernel
  exact ⟨takes _ (skipBatch_constraints true), cuts fresh _ _ _ _ .empty rfl apart_run whole_run low.1 low.2
    (by decide +kernel) controls.1 controls.2⟩

theorem circomlib_entry {w : TallySingle 64 11} (constraints : w.Constraints gadgets)
    (occupied : w.wasLeafEmpty = 0 → w.noAux = 0) : w.Constraints circomlib :=
  { constraints with
    verifier := (Gadgets.circomlib_complete _ _ _).verifier constraints.verifier occupied
    processor := (Gadgets.circomlib_complete _ _ _).processor constraints.processor }

theorem circomlib_batch {w : Tally 64 11 6} (constraints : w.Constraints gadgets)
    (occupied : ∀ i, (w.tallySingle i).wasLeafEmpty = 0 → (w.tallySingle i).noAux = 0) :
    w.Constraints circomlib :=
  { constraints with tallySingle := fun i => circomlib_entry (constraints.tallySingle i) (occupied i) }

def forgedBatch : Tally 64 11 6 :=
  { batch true with
    rootNew := 22256
    rootAcc := ![0, 107, 22256, 22256, 22256, 22256, 22256]
    tallySingle := fun i => if i = 0 then first else if i = 1 then forged else idle 22256 106 112 (counts 2) }

theorem forgedBatch_constraints : forgedBatch.Constraints circomlib where
  tallyHashOld := (batch_constraints true).tallyHashOld
  isFirstBatch := (batch_constraints true).isFirstBatch
  accZero := rfl
  enabled i := by fin_cases i <;> constructor <;> decide +kernel
  accOld i := by fin_cases i <;> rfl
  accNew i := by fin_cases i <;> rfl
  tallierSk i := by fin_cases i <;> rfl
  tallySingle i := by
    have idleBoth := idle_constraints 22256 (counts 2) (show hash.hash [106, 104] = some 112 by decide +kernel)
    unfold forgedBatch
    dsimp only
    split_ifs
    exacts [circomlib_entry first_constraints (by decide +kernel), forged_constraints,
      circomlib_entry idleBoth (by decide +kernel)]
  cumulativeMsgHashNew := rfl
  tallyHashNew := (batch_constraints true).tallyHashNew
  rootNew := rfl

/-- With the tree circuits of circomlib, two messages end in two roots. -/
theorem batching_not_transparent : ∃ (H : IdealHash Fr) (ecdh : Fr → Fr × Fr → Fr × Fr)
    (poseidonDecrypt : Fr × Fr → Fr → (Fin ctLen → Fr) → (Fin pad → Fr) → Prop)
    (ws ws' : List (Tally 64 11 6)) (s s1 s2 : TallyState) (t : SparseTree Fr),
    (Gadgets.circomlib H ecdh poseidonDecrypt).Authenticated ∧ t.commit H = some s.root ∧
      Steps (Tally.Step (.circomlib H ecdh poseidonDecrypt)) s ws s1 ∧
      Steps (Tally.Step (.circomlib H ecdh poseidonDecrypt)) s ws' s2 ∧ Tally.LowKeys ws ∧ Tally.LowKeys ws' ∧
      ws.flatMap Tally.messages = ws'.flatMap Tally.messages ∧ s1.root ≠ s2.root := by
  have low : Tally.LowKeys [skipBatch true] ∧ Tally.LowKeys [forgedBatch] := by
    simp only [Tally.LowKeys, List.forall_mem_cons, Tally.entries, List.forall_mem_ofFn_iff]
    decide +kernel
  have honest : (skipBatch true).Constraints circomlib :=
    circomlib_batch (skipBatch_constraints true) (by decide +kernel)
  exact ⟨hash, circomlib.ecdh, circomlib.poseidonDecrypt, [skipBatch true], [forgedBatch], fresh, _, _, .empty,
    authenticated, rfl, .cons ⟨honest, rfl, rfl⟩ (.nil _), .cons ⟨forgedBatch_constraints, rfl, rfl⟩ (.nil _),
    low.1, low.2, by decide +kernel, by decide +kernel⟩

end DoubleCount

end Mootvote
