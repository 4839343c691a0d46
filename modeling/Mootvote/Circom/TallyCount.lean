import Mathlib.Data.Fin.VecNotation
import Mathlib.Tactic.FinCases
import Mootvote.Circom.Tally

set_option autoImplicit false

namespace Mootvote

open Shared SparseMerkle

variable {H : IdealHash Fr} {depth maxChoices maxBatch : Nat}

def Records (H : IdealHash Fr) (choice value : Fr) : Prop := ∃ key, H.hash [choice, key] = some value

theorem records_iff {choice choice' key value : Fr} (hashed : H.hash [choice, key] = some value) :
    Records H choice' value ↔ choice = choice' := by
  constructor
  · rintro ⟨key', hashed'⟩
    have same := H.injective hashed hashed'
    simp only [List.cons.injEq] at same
    exact same.1
  · rintro rfl
    exact ⟨key, hashed⟩

open Classical in
noncomputable def leafCount (H : IdealHash Fr) (t : SparseTree Fr) (choice : Fr) : Nat :=
  t.leaves.countP fun entry => Records H choice entry.2

theorem leafCount_le (t : SparseTree Fr) (choice : Fr) : leafCount H t choice ≤ t.leaves.length :=
  List.countP_le_length

theorem leafCount_of_perm {t : SparseTree Fr} {rest : List (Fr × Fr)} {key value choice other : Fr}
    {revotingKey : Fr}
    (hashed : H.hash [choice, revotingKey] = some value) (leaves : t.leaves.Perm ((key, value) :: rest)) :
    leafCount H t other = (open Classical in rest.countP fun entry => Records H other entry.2) +
      if choice = other then 1 else 0 := by
  classical
  unfold leafCount
  rw [leaves.countP_eq, List.countP_cons]
  simp only [records_iff hashed, decide_eq_true_eq]

namespace TallySingle

variable {G : Gadgets H} {w : TallySingle depth maxChoices} {t t' : SparseTree Fr}

def added (w : TallySingle depth maxChoices) (k : Fin maxChoices) : Nat :=
  if w.isVoteValid = 1 ∧ w.ballot.choice = (k.val + 1 : Nat) then 1 else 0

def subtracted (w : TallySingle depth maxChoices) (k : Fin maxChoices) : Nat :=
  if w.isVoteValid = 1 ∧ w.choiceOld = (k.val + 1 : Nat) then 1 else 0

/-- The counts change as integers, so no subtraction wraps in the field. -/
def NoWrap (w : TallySingle depth maxChoices) : Prop :=
  ∀ k, (w.tallyNew k).val + w.subtracted k = (w.tallyOld k).val + w.added k

theorem choiceNumber_ne_zero (few : maxChoices < scalarModulus) (k : Fin maxChoices) :
    ((k.val + 1 : Nat) : Fr) ≠ 0 := by
  rw [Ne, ZMod.natCast_eq_zero_iff]
  exact Nat.not_dvd_of_pos_of_lt (by omega) (by omega)

theorem isVoteValid_boolean (boolean : Boolean w.enabled) : Boolean w.isVoteValid := by
  rcases boolean with off | on
  · exact .inl (by rw [isVoteValid, off, zero_mul])
  · rw [isVoteValid, on, one_mul]
    exact isEqual_boolean _ _

theorem Constraints.tally (constraints : w.Constraints G) (boolean : Boolean w.enabled) (k : Fin maxChoices) :
    w.tallyNew k + w.subtracted k = w.tallyOld k + w.added k := by
  rw [constraints.tallyNew, tallyChoice, added, subtracted, isEqual, isEqual]
  rcases isVoteValid_boolean boolean with invalid | valid
  · simp [invalid]
  · simp only [valid, one_mul, true_and]
    split_ifs <;> simp

theorem Effect.leafCount (effect : Effect H w t t') (constraints : w.Constraints G) (on : w.enabled = 1)
    (few : maxChoices < scalarModulus) (k : Fin maxChoices) :
    leafCount H t' (k.val + 1 : Nat) + w.subtracted k = leafCount H t (k.val + 1 : Nat) + w.added k := by
  unfold added subtracted
  simp only [isVoteValid, on, one_mul, revotingKeyMatches_eq_one]
  cases effect with
  | skipped mismatch => simp [mismatch]
  | inserted found absent done =>
      have zero : w.choiceOld = 0 := by simpa [absent] using constraints.emptyChoice
      rw [leafCount_of_perm constraints.leafNew (SparseTree.add_leaves done)]
      simp only [found, zero, true_and, (choiceNumber_ne_zero few k).symm, if_false]
      rfl
  | updated found _ done =>
      obtain ⟨rest, before, after⟩ := SparseTree.set_leaves done
      rw [leafCount_of_perm constraints.leafNew after, leafCount_of_perm constraints.leafOld before]
      simp only [found, true_and]
      omega

theorem Effect.shape (effect : Effect H w t t') (ordered : t.Ordered 0) (height : t.height ≤ depth) :
    t'.Ordered 0 ∧ t'.height ≤ depth ∧ t'.leaves.length ≤ t.leaves.length + 1 := by
  cases effect with
  | skipped => exact ⟨ordered, height, by omega⟩
  | inserted _ _ done =>
      refine ⟨SparseTree.add_ordered ordered done, SparseTree.add_height height done, ?_⟩
      rw [(SparseTree.add_leaves done).length_eq, List.length_cons]
  | updated _ _ done =>
      have keys := (SparseTree.set_keys done).length_eq
      simp only [List.length_map] at keys
      exact ⟨SparseTree.set_ordered ordered done, by rwa [SparseTree.set_height done], by omega⟩

end TallySingle

/-- The accumulated tally counts the leaves of the tree under the accumulated root. -/
structure Counted (H : IdealHash Fr) (depth : Nat) (acc : TallyAcc maxChoices) (processed : Nat)
    (t : SparseTree Fr) :
    Prop where
  committed : t.commit H = some acc.root
  ordered : t.Ordered 0
  height : t.height ≤ depth
  few : t.leaves.length ≤ processed
  tally : ∀ k, acc.tally k = leafCount H t (k.val + 1 : Nat)

namespace Counted

variable {G : Gadgets H} {acc acc' : TallyAcc maxChoices} {processed : Nat} {t : SparseTree Fr}

theorem val (counted : Counted H depth acc processed t) (small : depth < 254) (k : Fin maxChoices) :
    (acc.tally k).val = leafCount H t (k.val + 1 : Nat) := by
  have leaves := (leafCount_le (H := H) t (k.val + 1 : Nat)).trans t.length_leaves_le
  have power : 2 ^ t.height ≤ 2 ^ 253 :=
    Nat.pow_le_pow_right (by omega) (counted.height.trans (by omega))
  have modulus := scalarModulus_gt
  rw [counted.tally, ZMod.val_natCast, Nat.mod_eq_of_lt (by omega)]

theorem entry (counted : Counted H depth acc processed t) (small : depth < 254)
    (few : maxChoices < scalarModulus) {w : TallySingle depth maxChoices}
    (step : TallySingle.Step G acc w acc') (controls : w.enabled = 1 → w.BooleanControls) :
    w.NoWrap ∧ ∃ t', Counted H depth acc' (processed + (enabledMessages [w]).length) t' ∧
      (w.enabled = 0 ∧ t' = t ∨ w.enabled = 1 ∧ TallySingle.Effect H w t t') := by
  obtain ⟨constraints, boolean, rfl, rfl⟩ := step
  rcases boolean with off | on
  · have same := constraints.disabled off
    have unchanged : Counted H depth w.accNew (processed + (enabledMessages [w]).length) t := by
      rw [same]
      exact { counted with few := counted.few.trans (Nat.le_add_right _ _) }
    refine ⟨?_, t, unchanged, .inl ⟨off, rfl⟩⟩
    intro k
    rw [show w.tallyNew = w.tallyOld from congrArg TallyAcc.tally same]
    simp [TallySingle.added, TallySingle.subtracted, TallySingle.isVoteValid, off]
  · obtain ⟨t', committed, effect⟩ := constraints.effect on (controls on) counted.committed
    obtain ⟨ordered, height, grows⟩ := effect.shape counted.ordered counted.height
    have leaves := effect.leafCount constraints on few
    have changed : Counted H depth w.accNew (processed + (enabledMessages [w]).length) t' := by
      refine ⟨committed, ordered, height, ?_, ?_⟩
      · simpa [enabledMessages, on] using grows.trans (Nat.succ_le_succ counted.few)
      · intro k
        have field := constraints.tally (.inr on) k
        have cast := congrArg (Nat.cast (R := Fr)) (leaves k)
        push_cast at cast
        rw [show w.tallyOld k = _ from counted.tally k] at field
        exact add_right_cancel (field.trans (by push_cast; exact cast.symm))
    refine ⟨?_, t', changed, .inr ⟨on, effect⟩⟩
    intro k
    rw [show (w.tallyNew k).val = _ from changed.val small k,
      show (w.tallyOld k).val = _ from counted.val small k]
    exact leaves k

end Counted

def TallySingle.Keeps (H : IdealHash Fr) (w : TallySingle depth maxChoices)
    (J : List Ballot → SparseTree Fr → Prop) :
    Prop :=
  ∀ bs t t', t.commit H = some w.rootOld → t.Ordered 0 → TallySingle.Effect H w t t' → J bs t →
    J (bs ++ [w.ballot]) t'

section runs

variable {G : Gadgets H} {J : List Ballot → SparseTree Fr → Prop}

theorem Counted.run {acc acc' : TallyAcc maxChoices} {es : List (TallySingle depth maxChoices)}
    {processed : Nat}
    {t : SparseTree Fr} {bs : List Ballot} (counted : Counted H depth acc processed t) (holds : J bs t)
    (small : depth < 254) (few : maxChoices < scalarModulus) (run : Steps (TallySingle.Step G) acc es acc')
    (controls : ∀ e ∈ es, e.enabled = 1 → e.BooleanControls)
    (keeps : ∀ e ∈ es, e.enabled = 1 → e.Keeps H J) :
    (∀ e ∈ es, e.NoWrap) ∧ ∃ t', Counted H depth acc' (processed + (enabledMessages es).length) t' ∧
      J (bs ++ enabledBallots es) t' := by
  refine run.invariant (I := fun past mid => (∀ e ∈ past, e.NoWrap) ∧
    ∃ t', Counted H depth mid (processed + (enabledMessages past).length) t' ∧
      J (bs ++ enabledBallots past) t')
    ⟨by simp, t, counted, by simpa [enabledBallots] using holds⟩ ?_
  rintro past mid e mid' member ⟨noWrap, t', counted', holds'⟩ step
  obtain ⟨wraps, next, countedNext, change⟩ := counted'.entry small few step (controls e member)
  refine ⟨?_, next, ?_, ?_⟩
  · intro other either
    rcases List.mem_append.1 either with old | new
    · exact noWrap other old
    · rwa [List.mem_singleton.1 new]
  · rwa [enabledMessages_append, List.length_append, ← Nat.add_assoc]
  · rw [enabledBallots_append, ← List.append_assoc]
    rcases change with ⟨off, rfl⟩ | ⟨on, effect⟩
    · simpa [enabledBallots, off] using holds'
    · have committed : t'.commit H = some e.rootOld := by
        rw [counted'.committed, show e.rootOld = mid.root from congrArg TallyAcc.root step.old]
      simpa [enabledBallots, on] using
        keeps e member on (bs ++ enabledBallots past) t' next committed counted'.ordered effect holds'

structure Carried (H : IdealHash Fr) (J : List Ballot → SparseTree Fr → Prop)
    (past : List (Tally depth maxChoices maxBatch)) (s : TallyState) (t : SparseTree Fr) : Prop where
  committed : t.commit H = some s.root
  ordered : t.Ordered 0
  height : t.height ≤ depth
  few : t.leaves.length ≤ (past.flatMap Tally.messages).length
  holds : J (past.flatMap Tally.ballots) t
  noWrap : ∀ w ∈ past, ∀ e ∈ w.entries, e.NoWrap
  unstarted : past = [] → s.cumulativeMsgHash = 0
  opens : past ≠ [] → ∃ salt, ∃ tally : Fin maxChoices → Fr,
    H.hash (salt :: List.ofFn tally) = some s.tallyHash
  -- Before the first proof the committed tally is arbitrary; the first proof takes it to be zero.
  counts : ∀ salt, ∀ tally : Fin maxChoices → Fr, H.hash (salt :: List.ofFn tally) = some s.tallyHash →
    (past = [] → tally = fun _ => 0) → ∀ k, tally k = leafCount H t (k.val + 1 : Nat)

theorem carried_fresh {s : TallyState} (fresh : s.root = 0 ∧ s.cumulativeMsgHash = 0) (start : J [] .empty) :
    Carried H J ([] : List (Tally depth maxChoices maxBatch)) s .empty where
  committed := by rw [fresh.1]; rfl
  ordered := trivial
  height := Nat.zero_le _
  few := Nat.zero_le _
  holds := start
  noWrap := by simp
  unstarted := fun _ => fresh.2
  opens := by simp
  counts := by
    intro salt tally _ zero k
    rw [zero rfl]
    simp [leafCount, SparseTree.leaves]

theorem Carried.step {past : List (Tally depth maxChoices maxBatch)} {s s' : TallyState} {t : SparseTree Fr}
    (carried : Carried H J past s t) (small : depth < 254) (few : maxChoices < scalarModulus)
    {w : Tally depth maxChoices maxBatch} (step : Tally.Step G s w s')
    (controls : ∀ e ∈ w.entries, e.enabled = 1 → e.BooleanControls)
    (keeps : ∀ e ∈ w.entries, e.enabled = 1 → e.Keeps H J) : ∃ t', Carried H J (past ++ [w]) s' t' := by
  obtain ⟨constraints, rfl, rfl⟩ := step
  have counted : Counted H depth (w.acc 0) (past.flatMap Tally.messages).length t := by
    rw [constraints.accZero]
    refine ⟨carried.committed, carried.ordered, carried.height, carried.few, ?_⟩
    exact carried.counts _ _ constraints.tallyHashOld fun none =>
      constraints.tally_first (carried.unstarted none)
  obtain ⟨noWrap, t', counted', holds⟩ := counted.run carried.holds small few constraints.run controls keeps
  refine ⟨t', ?_, counted'.ordered, counted'.height, ?_, ?_, ?_, by simp, ?_, ?_⟩
  · rw [counted'.committed]
    exact congrArg some constraints.rootNew.symm
  · simpa [Tally.messages] using counted'.few
  · simpa [Tally.ballots] using holds
  · intro other either
    rcases List.mem_append.1 either with old | new
    · exact carried.noWrap other old
    · rwa [List.mem_singleton.1 new]
  · exact fun _ => ⟨_, _, constraints.tallyHashNew⟩
  · intro salt tally hashed _
    have same := H.injective hashed constraints.tallyHashNew
    simp only [List.cons.injEq] at same
    rw [List.ofFn_injective same.2]
    exact counted'.tally

theorem carried_run {ws : List (Tally depth maxChoices maxBatch)} {s s' : TallyState}
    (fresh : s.root = 0 ∧ s.cumulativeMsgHash = 0) (start : J [] .empty) (small : depth < 254)
    (few : maxChoices < scalarModulus) (run : Steps (Tally.Step G) s ws s')
    (controls : ∀ w ∈ ws, ∀ e ∈ w.entries, e.enabled = 1 → e.BooleanControls)
    (keeps : ∀ w ∈ ws, ∀ e ∈ w.entries, e.enabled = 1 → e.Keeps H J) : ∃ t, Carried H J ws s' t := by
  refine run.invariant (I := fun past mid => ∃ t, Carried H J past mid t)
    ⟨.empty, carried_fresh fresh start⟩ ?_
  rintro past mid w mid' member ⟨t, carried⟩ step
  exact carried.step small few step (controls w member) (keeps w member)

theorem Carried.val {ws : List (Tally depth maxChoices maxBatch)} {s : TallyState} {t : SparseTree Fr}
    (carried : Carried H J ws s t) (small : depth < 254) (started : ws ≠ []) {salt : Fr}
    {tally : Fin maxChoices → Fr} (opened : H.hash (salt :: List.ofFn tally) = some s.tallyHash)
    (k : Fin maxChoices) : (tally k).val = leafCount H t (k.val + 1 : Nat) := by
  have counted : Counted H depth { root := s.root, cumulativeMsgHash := s.cumulativeMsgHash, tally := tally }
      (ws.flatMap Tally.messages).length t :=
    ⟨carried.committed, carried.ordered, carried.height, carried.few,
      carried.counts salt tally opened fun none => absurd none started⟩
  exact counted.val small k

/-- Whatever keys the prover used, the committed tally counts the leaves of the committed tree. -/
theorem tally_counts_leaves {ws : List (Tally depth maxChoices maxBatch)} {s s' : TallyState}
    (small : depth < 254) (few : maxChoices < scalarModulus)
    (fresh : s.root = 0 ∧ s.cumulativeMsgHash = 0) (run : Steps (Tally.Step G) s ws s') (started : ws ≠ [])
    (controls : ∀ w ∈ ws, ∀ e ∈ w.entries, e.enabled = 1 → e.BooleanControls) :
    ∃ t salt, ∃ tally : Fin maxChoices → Fr, t.commit H = some s'.root ∧
      H.hash (salt :: List.ofFn tally) = some s'.tallyHash ∧
      (∀ k, (tally k).val = leafCount H t (k.val + 1 : Nat) ∧
        (tally k).val ≤ (ws.flatMap Tally.messages).length) ∧
      ∀ w ∈ ws, ∀ e ∈ w.entries, e.NoWrap := by
  obtain ⟨t, carried⟩ := carried_run (J := fun _ _ => True) fresh trivial small few run controls
    (fun _ _ _ _ _ _ _ _ _ _ _ _ => trivial)
  obtain ⟨salt, tally, opened⟩ := carried.opens started
  refine ⟨t, salt, tally, carried.committed, opened, fun k => ?_, carried.noWrap⟩
  have val := carried.val small started opened k
  exact ⟨val, by rw [val]; exact (leafCount_le t _).trans carried.few⟩

end runs

namespace DoubleCount

/-- One voter's ballots for choice 1 with revoting key 7, tallied as leaf 5 and as leaf 4. -/
def table : List (List Fr × Fr) :=
  [([0], 100), ([0, 100], 101), ([1, 7], 102),
    ([1, 2, 30, 5, 1, 100, 7, 0, 0, 0], 103), ([1, 2, 31, 5, 1, 100, 7, 0, 0, 0], 104),
    ([0, 103], 105), ([105, 104], 106), ([106, 104], 112),
    ([5, 102, 1], 107), ([4, 102, 1], 108), ([108, 107], 109),
    ([8, 0, 0, 0, 0, 0, 0, 0, 0, 0, 0, 0], 110), ([9, 1, 0, 0, 0, 0, 0, 0, 0, 0, 0, 0], 111),
    ([9, 2, 0, 0, 0, 0, 0, 0, 0, 0, 0, 0], 113),
    ([4, 9, 1], 1), ([107, 11449], 314)]

def hash : IdealHash Fr := .ofTable table (by decide +kernel) (by decide +kernel)

def gadgets : Gadgets hash :=
  .documented hash (fun _ pk => pk) fun _ _ ciphertext decrypted => ∀ i, decrypted i = ciphertext i.castSucc

def counts (n : Fr) : Fin 11 → Fr := fun k => if k = 0 then n else 0

def first : TallySingle 64 11 where
  enabled := 1
  rootOld := 0
  cumulativeMsgHashOld := 0
  tallyOld := counts 0
  tallierSk := 6
  ephPk := (1, 2)
  nonce := 30
  ciphertext := ![5, 1, 100, 7, 0, 0, 0]
  siblings := fun _ => 0
  choiceOld := 0
  revotingKeyOld := 100
  noAux := 1
  auxKey := 0
  auxValue := 0
  wasLeafEmpty := 1
  rootNew := 107
  cumulativeMsgHashNew := 105
  tallyNew := counts 1
  msgHash := 103
  decrypted := ![5, 1, 100, 7, 0, 0]
  leafOld := 101
  leafNew := 102
  nuLo := 5
  nuHi := 0
  hash0 := 100
  cumulativeMsgHash := 105

/-- The entry that counts the second message, as the insertion of leaf 4: `nuHi` is `2^-64`. -/
def second : TallySingle 64 11 :=
  { first with
    rootOld := 107
    cumulativeMsgHashOld := 105
    tallyOld := counts 1
    nonce := 31
    noAux := 0
    auxKey := 5
    auxValue := 102
    rootNew := 109
    cumulativeMsgHashNew := 106
    tallyNew := counts 2
    msgHash := 104
    nuLo := 4
    nuHi := 16662651760482593750343275155358532940078388361286693648211298903031153094221
    cumulativeMsgHash := 106 }

def idle (root cumulativeMsgHash next : Fr) (tally : Fin 11 → Fr) : TallySingle 64 11 :=
  { first with
    enabled := 0
    rootOld := root
    cumulativeMsgHashOld := cumulativeMsgHash
    tallyOld := tally
    nonce := 31
    rootNew := root
    cumulativeMsgHashNew := cumulativeMsgHash
    tallyNew := tally
    msgHash := 104
    cumulativeMsgHash := next }

theorem first_constraints : first.Constraints gadgets where
  msgHasher := by decide +kernel
  decrypt := by
    change ∀ i : Fin pad, _ = _
    decide +kernel
  leafOld := by decide +kernel
  leafNew := by decide +kernel
  nuSplit := by decide +kernel
  emptyChoice := by decide +kernel
  hash0 := by decide +kernel
  emptyKey := by decide +kernel
  verifier := .inr ⟨rfl, .inr rfl, .inr ⟨rfl, by decide +kernel, by decide +kernel⟩⟩
  processor := .inr ⟨.inr rfl, .inl ⟨by decide +kernel, by decide +kernel,
    by decide +kernel, by decide +kernel⟩⟩
  tallyNew := by decide +kernel
  cumulativeMsgHash := by decide +kernel
  cumulativeMsgHashNew := by decide +kernel

theorem second_constraints : second.Constraints gadgets where
  msgHasher := by decide +kernel
  decrypt := first_constraints.decrypt
  leafOld := first_constraints.leafOld
  leafNew := first_constraints.leafNew
  nuSplit := by decide +kernel
  emptyChoice := first_constraints.emptyChoice
  hash0 := first_constraints.hash0
  emptyKey := first_constraints.emptyKey
  verifier := .inr ⟨rfl, .inl rfl, .inr ⟨rfl, by decide +kernel, by decide +kernel⟩⟩
  processor := .inr ⟨.inl rfl, .inl ⟨by decide +kernel, by decide +kernel,
    by decide +kernel, by decide +kernel⟩⟩
  tallyNew := by decide +kernel
  cumulativeMsgHash := by decide +kernel
  cumulativeMsgHashNew := by decide +kernel

theorem idle_constraints (root : Fr) (tally : Fin 11 → Fr) {cumulativeMsgHash next : Fr}
    (absorbs : hash.hash [cumulativeMsgHash, 104] = some next) :
    (idle root cumulativeMsgHash next tally).Constraints gadgets where
  msgHasher := second_constraints.msgHasher
  decrypt := first_constraints.decrypt
  leafOld := first_constraints.leafOld
  leafNew := first_constraints.leafNew
  nuSplit := first_constraints.nuSplit
  emptyChoice := first_constraints.emptyChoice
  hash0 := first_constraints.hash0
  emptyKey := first_constraints.emptyKey
  verifier := .inl rfl
  processor := .inl ⟨by simp [TallySingle.processor, TallySingle.isVoteValid, idle], rfl⟩
  tallyNew := by simp [tallyChoice, TallySingle.isVoteValid, idle]
  cumulativeMsgHash := absorbs
  cumulativeMsgHashNew := by simp [idle]

local instance (priority := 2000) neZero_six : NeZero (5 + 1) := ⟨by decide⟩

local instance (priority := 2000) neZero_seven : NeZero (6 + 1) := ⟨by decide⟩

def batch (both : Bool) : Tally 64 11 6 where
  rootOld := 0
  cumulativeMsgHashOld := 0
  tallyHashOld := 110
  rootNew := if both then 109 else 107
  cumulativeMsgHashNew := if both then 106 else 105
  tallyHashNew := if both then 113 else 111
  batchLen := if both then 2 else 1
  tallyOld := counts 0
  tallySaltOld := 8
  tallySaltNew := 9
  tallierSk := 6
  rootAcc := if both then ![0, 107, 109, 109, 109, 109, 109] else ![0, 107, 107, 107, 107, 107, 107]
  cumulativeMsgHashAcc := if both then ![0, 105, 106, 106, 106, 106, 106]
    else ![0, 105, 105, 105, 105, 105, 105]
  tallyAcc i := if i = 0 then counts 0 else if both ∧ i ≠ 1 then counts 2 else counts 1
  tallySingle i :=
    if i = 0 then first
    else if both then if i = 1 then second else idle 109 106 112 (counts 2)
    else idle 107 105 106 (counts 1)

theorem batch_constraints (both : Bool) : (batch both).Constraints gadgets where
  tallyHashOld := by cases both <;> decide +kernel
  isFirstBatch := by decide +revert +kernel
  accZero := by cases both <;> rfl
  enabled i := by
    cases both <;> fin_cases i <;> constructor <;> decide +kernel
  accOld i := by cases both <;> fin_cases i <;> rfl
  accNew i := by cases both <;> fin_cases i <;> rfl
  tallierSk i := by cases both <;> fin_cases i <;> rfl
  tallySingle i := by
    have idleBoth := idle_constraints 109 (counts 2)
      (show hash.hash [106, 104] = some 112 by decide +kernel)
    have idleOne := idle_constraints 107 (counts 1)
      (show hash.hash [105, 104] = some 106 by decide +kernel)
    unfold batch
    dsimp only
    split_ifs
    exacts [first_constraints, second_constraints, idleBoth, idleOne]
  cumulativeMsgHashNew := by cases both <;> rfl
  tallyHashNew := by cases both <;> decide +kernel
  rootNew := by cases both <;> rfl

def fresh : TallyState := { root := 0, cumulativeMsgHash := 0, tallyHash := 110 }

theorem batch_run (both : Bool) : Steps (Tally.Step gadgets) fresh [batch both] (batch both).stateNew :=
  .cons ⟨batch_constraints both, rfl, rfl⟩ (.nil _)

theorem batch_controls (both : Bool) : ∀ w ∈ [batch both], ∀ e ∈ w.entries, e.enabled = 1 →
    e.BooleanControls := by
  simp only [List.mem_singleton, forall_eq, Tally.entries, List.forall_mem_ofFn_iff]
  decide +revert +kernel

theorem tally_counts_leaves_doubled : ∃ t salt, ∃ tally : Fin 11 → Fr, t.commit hash = some 109 ∧
    hash.hash (salt :: List.ofFn tally) = some 113 ∧
    (∀ k, (tally k).val = leafCount hash t (k.val + 1 : Nat) ∧
      (tally k).val ≤ ([batch true].flatMap Tally.messages).length) ∧
    ∀ w ∈ [batch true], ∀ e ∈ w.entries, e.NoWrap :=
  tally_counts_leaves (by decide) (by decide) ⟨rfl, rfl⟩ (batch_run true) (by simp) (batch_controls true)

end DoubleCount

end Mootvote
