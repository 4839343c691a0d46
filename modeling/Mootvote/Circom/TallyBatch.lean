import Mootvote.Circom.TallyComplete

set_option autoImplicit false

/-!
# Batches as the prover is given them

The inputs of a batch are one array for each signal of an entry. Entries that follow one another fill a
batch up with copies of the last, and the inputs leave the circuit's own assignment no choice.
-/

namespace Mootvote

open Shared SparseMerkle

variable {H : IdealHash Fr} {G : Gadgets H} {depth maxChoices maxBatch : Nat}

structure TallyRow where
  ephPk : Fr × Fr
  nonce : Fr
  ciphertext : List Fr
  siblings : List Fr
  choiceOld : Fr
  revotingKeyOld : Fr
  noAux : Fr
  auxKey : Fr
  auxValue : Fr
  wasLeafEmpty : Fr
deriving DecidableEq

structure TallyArrays where
  ephPk : List (Fr × Fr)
  nonce : List Fr
  ciphertext : List (List Fr)
  siblings : List (List Fr)
  choiceOld : List Fr
  revotingKeyOld : List Fr
  noAux : List Fr
  auxKey : List Fr
  auxValue : List Fr
  wasLeafEmpty : List Fr
deriving DecidableEq

structure TallyInputs extends TallyArrays where
  rootOld : Fr
  cumulativeMsgHashOld : Fr
  tallySaltOld : Fr
  tallySaltNew : Fr
  tallyOld : List Fr
  batchLen : Fr
  tallierSk : Fr
deriving DecidableEq

def TallyArrays.ofRows (rows : List TallyRow) : TallyArrays where
  ephPk := rows.map TallyRow.ephPk
  nonce := rows.map TallyRow.nonce
  ciphertext := rows.map TallyRow.ciphertext
  siblings := rows.map TallyRow.siblings
  choiceOld := rows.map TallyRow.choiceOld
  revotingKeyOld := rows.map TallyRow.revotingKeyOld
  noAux := rows.map TallyRow.noAux
  auxKey := rows.map TallyRow.auxKey
  auxValue := rows.map TallyRow.auxValue
  wasLeafEmpty := rows.map TallyRow.wasLeafEmpty

theorem TallyArrays.ofRows_injective {rows rows' : List TallyRow} (same : ofRows rows = ofRows rows') :
    rows = rows' := by
  induction rows generalizing rows' with
  | nil =>
      have none := congrArg (fun a => a.nonce.length) same
      simp only [ofRows, List.length_map, List.length_nil] at none
      exact (List.length_eq_zero_iff.1 none.symm).symm
  | cons row rows ih =>
      cases rows' with
      | nil => cases same
      | cons row' rows' =>
          rcases row with ⟨⟩
          rcases row' with ⟨⟩
          simp only [ofRows, List.map_cons, TallyArrays.mk.injEq, List.cons.injEq] at same
          rw [ih (by simp only [ofRows, TallyArrays.mk.injEq]; tauto)]
          simp only [List.cons.injEq, TallyRow.mk.injEq, and_true]
          tauto

theorem Tracks.lookup_eq {book : Book (Fin (2 ^ depth))} {t : SparseTree Fr} (tracks : Tracks H book t)
    {k : Fin (2 ^ depth)} {hash0 leafOld : Fr}
    (isLeafOld : H.hash [((book k).map Prod.fst).getD 0, ((book k).map Prod.snd).getD hash0] = some leafOld) :
    t.lookup ((k.val : Nat) : Fr) 0 = if book k = none then none else some leafOld := by
  have related := tracks.entries k
  generalize t.lookup ((k.val : Nat) : Fr) 0 = looked at related ⊢
  generalize book k = stored at related isLeafOld ⊢
  cases related with
  | none => rfl
  | some hashed =>
      rw [← hashed]
      exact isLeafOld

namespace TallySingle

variable {w w' : TallySingle depth maxChoices}

def row (w : TallySingle depth maxChoices) : TallyRow where
  ephPk := w.ephPk
  nonce := w.nonce
  ciphertext := List.ofFn w.ciphertext
  siblings := List.ofFn w.siblings
  choiceOld := w.choiceOld
  revotingKeyOld := w.revotingKeyOld
  noAux := w.noAux
  auxKey := w.auxKey
  auxValue := w.auxValue
  wasLeafEmpty := w.wasLeafEmpty

/-- What the circuit itself assigns to the split: `nu & ((1 << DEPTH) - 1)` and `nu >> DEPTH`. -/
structure Hints (w : TallySingle depth maxChoices) : Prop where
  nuLo : w.nuLo = ((w.ballot.nu.val % 2 ^ depth : Nat) : Fr)
  nuHi : w.nuHi = ((w.ballot.nu.val / 2 ^ depth : Nat) : Fr)

theorem split_hi (depth : Nat) (x : Fr) :
    (x - ((x.val % 2 ^ depth : Nat) : Fr)) * ((2 ^ depth : Nat) : Fr)⁻¹ =
    ((x.val / 2 ^ depth : Nat) : Fr) := by
  have coprime : Nat.Coprime (2 ^ depth) scalarModulus := Nat.Coprime.pow_left depth (by decide)
  have high : x - ((x.val % 2 ^ depth : Nat) : Fr) =
    ((x.val / 2 ^ depth : Nat) : Fr) * (2 ^ depth : Nat) := by
    rw [sub_eq_iff_eq_add, ← Nat.cast_mul, ← Nat.cast_add, Nat.div_add_mod', ZMod.natCast_zmod_val]
  rw [high, mul_assoc, ZMod.coe_mul_inv_eq_one _ coprime, mul_one]

theorem ofRecord_hints {acc acc' : TallyAcc maxChoices} {sk msgHash hash0 leafOld leafNew : Fr} {m : Message}
    {decrypted : Fin pad → Fr} {siblings : Fin depth → Fr} {opening : Opening Fr}
    {stored : Option (Fr × Fr)} :
    (ofRecord acc acc' sk m msgHash decrypted siblings opening stored (reducedNu depth (decrypted 0)) hash0
      leafOld leafNew).Hints where
  nuLo := rfl
  nuHi := split_hi depth (decrypted 0)

theorem message_of_row (rows : w.row = w'.row) : w.message = w'.message := by
  simp only [row, TallyRow.mk.injEq] at rows
  rw [message, message, rows.1, rows.2.1, List.ofFn_injective rows.2.2.1]

/-- An entry's inputs determine its outputs. -/
theorem Constraints.unique (constraints : w.Constraints G) (constraints' : w'.Constraints G)
    (on : w.enabled = 1) (on' : w'.enabled = 1) (controls : w.BooleanControls) (rows : w.row = w'.row)
    (old : w.accOld = w'.accOld) (ballot : w.ballot = w'.ballot) (key : w.nuLo = w'.nuLo) :
    w.accNew = w'.accNew := by
  have message := message_of_row rows
  simp only [row, TallyRow.mk.injEq] at rows
  obtain ⟨_, _, _, siblings, choiceOld, revotingKeyOld, noAux, auxKey, auxValue, wasLeafEmpty⟩ := rows
  simp only [accOld, TallyAcc.mk.injEq] at old
  obtain ⟨rootOld, hashOld, tallyOld⟩ := old
  have matched : w.revotingKeyMatches = w'.revotingKeyMatches := by
    rw [revotingKeyMatches, revotingKeyMatches, ballot, revotingKeyOld]
  have valid : w.isVoteValid = w'.isVoteValid := by
    rw [isVoteValid, isVoteValid, matched, on, on']
  have msgHash : w.msgHash = w'.msgHash := by
    have own := constraints.msgHasher
    rw [message, constraints'.msgHasher] at own
    exact (Option.some.inj own).symm
  have hashNew : w.cumulativeMsgHashNew = w'.cumulativeMsgHashNew := by
    have own := constraints.absorbs on
    rw [hashOld, msgHash, constraints'.absorbs on'] at own
    exact (Option.some.inj own).symm
  have tallyNew : w.tallyNew = w'.tallyNew := by
    funext t
    rw [constraints.tallyNew, constraints'.tallyNew, valid, choiceOld, ballot, tallyOld]
  have leafNew : w.leafNew = w'.leafNew := by
    have own := constraints.leafNew
    rw [ballot, constraints'.leafNew] at own
    exact (Option.some.inj own).symm
  have same : w.processor = { w'.processor with newRoot := w.rootNew } := by
    simp only [TallySingle.processor, rootOld, siblings, auxKey, auxValue, noAux, key, leafNew,
      valid, wasLeafEmpty]
  have rootNew : w.rootNew = w'.rootNew := by
    have own := constraints.processor
    rw [same] at own
    rcases isEqual_boolean w.ballot.revotingKeyOld w.revotingKeyOld with mismatch | found
    · -- Neither entry changes the root.
      have zero : w'.isVoteValid = 0 := by rw [← valid, isVoteValid, revotingKeyMatches, mismatch, mul_zero]
      have idle : w'.processor.fnc = (0, 0) := by simp only [TallySingle.processor, zero, zero_mul]
      rw [show w.rootNew = w'.rootOld from G.noOp _ own idle,
        show w'.rootNew = w'.rootOld from G.noOp _ constraints'.processor idle]
    · have one : w'.isVoteValid = 1 := by rw [← valid, isVoteValid, on, revotingKeyMatches, found, one_mul]
      have boolean : Boolean w'.noAux := noAux ▸ controls.1
      rcases controls.2 with present | absent
      · have mode : w'.processor.fnc = (0, 1) := by
          simp only [TallySingle.processor, one, ← wasLeafEmpty, present, mul_zero, sub_zero, mul_one]
        have left := (G.update _ own boolean mode).after
        rw [show Opening.rootOf H (SMTProcessor.opening { w'.processor with newRoot := w.rootNew }) =
          Opening.rootOf H w'.processor.opening from rfl,
          (G.update _ constraints'.processor boolean mode).after] at left
        exact (Option.some.inj left).symm
      · have mode : w'.processor.fnc = (1, 0) := by
          simp only [TallySingle.processor, one, ← wasLeafEmpty, absent, mul_one, sub_self, mul_zero]
        have left := (G.insertion _ own boolean mode).after
        rw [show SMTProcessor.opening { w'.processor with newRoot := w.rootNew } =
          w'.processor.opening from rfl,
          (G.insertion _ constraints'.processor boolean mode).after] at left
        exact (Option.some.inj left).symm
  rw [accNew, accNew, rootNew, hashNew, tallyNew]

end TallySingle

namespace Tally

variable {w w' : Tally depth maxChoices maxBatch} {acc acc' : TallyAcc maxChoices}
  {front : List (TallySingle depth maxChoices)} {last : TallySingle depth maxChoices}
  {sk saltOld saltNew hashOld hashNew : Fr}

def inputs (w : Tally depth maxChoices maxBatch) : TallyInputs where
  toTallyArrays := .ofRows (w.entries.map TallySingle.row)
  rootOld := w.rootOld
  cumulativeMsgHashOld := w.cumulativeMsgHashOld
  tallySaltOld := w.tallySaltOld
  tallySaltNew := w.tallySaltNew
  tallyOld := List.ofFn w.tallyOld
  batchLen := w.batchLen
  tallierSk := w.tallierSk

def Hints (w : Tally depth maxChoices maxBatch) : Prop := ∀ e ∈ w.entries, e.Hints

theorem exists_padding (complete : G.Complete) (fits : front.length + 1 ≤ maxBatch)
    (step : TallySingle.Step G acc last acc') (hints : last.Hints)
    (idle : front.length + 1 < maxBatch → ∃ next, H.hash [acc'.cumulativeMsgHash, last.msgHash] = some next) :
    ∃ copies : List (TallySingle depth maxChoices),
      copies.map TallySingle.row = List.replicate (maxBatch - (front.length + 1)) last.row ∧
      (∀ e ∈ copies, e.enabled = 0 ∧ e.tallierSk = last.tallierSk ∧ e.Hints) ∧
      Steps (TallySingle.Step G) acc' copies acc' := by
  by_cases full : front.length + 1 = maxBatch
  · exact ⟨[], by simp [full], by simp, .nil acc'⟩
  · obtain ⟨next, chained⟩ := idle (by omega)
    rw [← step.new] at chained ⊢
    refine ⟨List.replicate (maxBatch - (front.length + 1)) (last.idle next), List.map_replicate, ?_,
      .replicate ⟨step.constraints.idle complete chained, .inl rfl, rfl, rfl⟩ _⟩
    intro e member
    rw [List.eq_of_mem_replicate member]
    exact ⟨rfl, rfl, hints.nuLo, hints.nuHi⟩

/-- Entries that follow one another make a batch, filled up with copies of the last. -/
theorem exists_batch (complete : G.Complete) (few : maxBatch ≤ 2 ^ 16) (fits : front.length + 1 ≤ maxBatch)
    (run : Steps (TallySingle.Step G) acc (front ++ [last]) acc')
    (entered : ∀ e ∈ front ++ [last], e.enabled = 1 ∧ e.tallierSk = sk ∧ e.Hints)
    (idle : front.length + 1 < maxBatch → ∃ next, H.hash [acc'.cumulativeMsgHash, last.msgHash] = some next)
    (hashedOld : H.hash (saltOld :: List.ofFn acc.tally) = some hashOld)
    (hashedNew : H.hash (saltNew :: List.ofFn acc'.tally) = some hashNew)
    (first : acc.cumulativeMsgHash = 0 → acc.tally = fun _ => 0) :
    ∃ w : Tally depth maxChoices maxBatch, w.Constraints G ∧ w.Hints ∧
      w.inputs =
        { toTallyArrays := .ofRows ((front ++ [last]).map TallySingle.row ++
            List.replicate (maxBatch - (front.length + 1)) last.row)
          rootOld := acc.root
          cumulativeMsgHashOld := acc.cumulativeMsgHash
          tallySaltOld := saltOld
          tallySaltNew := saltNew
          tallyOld := List.ofFn acc.tally
          batchLen := (front.length + 1 : Nat)
          tallierSk := sk } := by
  obtain ⟨_, _, step⟩ := Steps.snoc_iff.1 run
  obtain ⟨_, ownSk, ownHints⟩ := entered last (by simp)
  obtain ⟨copies, copied, disabled, more⟩ := exists_padding complete fits step ownHints idle
  have length : (front ++ [last] ++ copies).length = maxBatch := by
    have count := congrArg List.length copied
    rw [List.length_map, List.length_replicate] at count
    simp only [List.length_append, List.length_singleton, count]
    omega
  obtain ⟨entry, isEntry⟩ := exists_ofFn (front ++ [last] ++ copies) length
  have whole := Steps.append_iff.2 ⟨acc', run, more⟩
  rw [← isEntry] at whole
  obtain ⟨state, rfl, rfl, joined⟩ := whole.exists_states
  have entryAt (i : Fin maxBatch) : (front ++ [last] ++ copies)[i.val]? = some (entry i) := by
    simp [← isEntry]
  have each (i : Fin maxBatch) : (entry i).enabled = (if i.val < front.length + 1 then 1 else 0) ∧
      (entry i).tallierSk = sk ∧ (entry i).Hints := by
    have found := entryAt i
    by_cases early : i.val < front.length + 1
    · rw [List.getElem?_append_left (by simpa using early)] at found
      rw [if_pos early]
      exact entered _ (List.mem_of_getElem? found)
    · rw [List.getElem?_append_right (by simp; omega)] at found
      obtain ⟨off, sameSk, hints⟩ := disabled _ (List.mem_of_getElem? found)
      rw [if_neg early]
      exact ⟨off, sameSk.trans ownSk, hints⟩
  refine ⟨
    { rootOld := (state 0).root
      cumulativeMsgHashOld := (state 0).cumulativeMsgHash
      tallyHashOld := hashOld
      rootNew := (state (Fin.last maxBatch)).root
      cumulativeMsgHashNew := (state (Fin.last maxBatch)).cumulativeMsgHash
      tallyHashNew := hashNew
      batchLen := (front.length + 1 : Nat)
      tallyOld := (state 0).tally
      tallySaltOld := saltOld
      tallySaltNew := saltNew
      tallierSk := sk
      rootAcc := fun i => (state i).root
      cumulativeMsgHashAcc := fun i => (state i).cumulativeMsgHash
      tallyAcc := fun i => (state i).tally
      tallySingle := entry },
    { tallyHashOld := hashedOld
      isFirstBatch := fun t => ?_
      accZero := rfl
      enabled := fun i => ?_
      accOld := fun i => (joined i).old
      accNew := fun i => (joined i).new
      tallierSk := fun i => (each i).2.1
      tallySingle := fun i => (joined i).constraints
      cumulativeMsgHashNew := rfl
      tallyHashNew := hashedNew
      rootNew := rfl }, ?_, ?_⟩
  · show isZero (state 0).cumulativeMsgHash * (state 0).tally t = 0
    by_cases zero : (state 0).cumulativeMsgHash = 0
    · rw [first zero, mul_zero]
    · rw [isZero, if_neg zero, zero_mul]
  · show LessThan 16 (i.val : Nat) ((front.length + 1 : Nat) : Fr) (entry i).enabled
    rw [(each i).1]
    exact LessThan.complete (by omega) (by omega) (by omega)
  · intro e member
    obtain ⟨i, rfl⟩ := (List.mem_ofFn' entry e).1 member
    exact (each i).2.2
  · rw [inputs, entries, isEntry, List.map_append, copied]

theorem disabled_run {es : List (TallySingle depth maxChoices)}
    (run : Steps (TallySingle.Step G) acc es acc') (off : ∀ e ∈ es, e.enabled = 0) : acc' = acc := by
  refine run.invariant (I := fun _ mid => mid = acc) rfl ?_
  rintro _ _ e _ member before ⟨constraints, _, rfl, rfl⟩
  rw [constraints.disabled (off e member), before]

theorem Constraints.enabled_run (constraints : w.Constraints G) (few : maxBatch ≤ 2 ^ 16)
    {rows copies : List TallyRow} (arrays : w.inputs.toTallyArrays = .ofRows (rows ++ copies))
    (length : w.batchLen = (rows.length : Nat)) :
    ∃ es : List (TallySingle depth maxChoices), es.map TallySingle.row = rows ∧
      (∀ e ∈ es, e ∈ w.entries ∧ e.enabled = 1 ∧ e.tallierSk = w.tallierSk) ∧
      Steps (TallySingle.Step G) (w.acc 0) es (w.acc (Fin.last maxBatch)) := by
  obtain ⟨es, rest, split, isRows, isCopies⟩ :=
    List.map_eq_append_iff.1 (TallyArrays.ofRows_injective arrays)
  have whole : w.entries.length = maxBatch := List.length_ofFn
  rw [← isRows, List.length_map] at length
  have fits : es.length ≤ maxBatch := by
    rw [← whole, split, List.length_append]
    omega
  have entryAt (i : Fin maxBatch) : (es ++ rest)[i.val]? = some (w.tallySingle i) := by
    rw [← split]
    simp [entries]
  have on (i : Fin maxBatch) : (w.tallySingle i).enabled = 1 ↔ i.val < es.length := by
    have compared := constraints.enabled i
    rw [length] at compared
    exact compared.sound (by omega) (by omega) (by omega)
  have run := constraints.run
  rw [split] at run
  obtain ⟨mid, front, back⟩ := Steps.append_iff.1 run
  refine ⟨es, isRows, fun e member => ?_, ?_⟩
  · obtain ⟨j, inside, rfl⟩ := List.mem_iff_getElem.1 member
    have found := entryAt ⟨j, by omega⟩
    rw [List.getElem?_append_left inside, List.getElem?_eq_getElem inside, Option.some.injEq] at found
    rw [found]
    exact ⟨(List.mem_ofFn' _ _).2 ⟨_, rfl⟩, (on _).2 inside, constraints.tallierSk _⟩
  · have off : ∀ e ∈ rest, e.enabled = 0 := by
      intro e member
      obtain ⟨j, inside, rfl⟩ := List.mem_iff_getElem.1 member
      have below : es.length + j < maxBatch := by
        rw [← whole, split, List.length_append]
        omega
      have found : (es ++ rest)[es.length + j]? = _ := entryAt ⟨es.length + j, below⟩
      rw [List.getElem?_append_right (by omega), Nat.add_sub_cancel_left, List.getElem?_eq_getElem inside,
        Option.some.injEq] at found
      rw [found]
      exact (constraints.enabled _).boolean.resolve_right fun one => by
        have early := (on _).1 one
        simp at early
    rw [disabled_run back off]
    exact front

end Tally

end Mootvote
