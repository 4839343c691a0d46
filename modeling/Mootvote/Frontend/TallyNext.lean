import Mootvote.Frontend.TallyVotes

set_option autoImplicit false

/-!
# The tallier's batches and the tally circuit

The inputs that the browser builds satisfy the circuit, whose outputs are the browser's, whatever batches
came before. The browser throws instead only when two indices share a path to the last level.
-/

namespace Mootvote.Frontend

open Shared SparseMerkle Indexer

variable {H : IdealHash Fr} {G : Gadgets H} {lib : Merkletree} {tree : lib.Tree → SparseTree Fr}
  {poll : PollDetail} {keypair : Keypair} {cipher : Cipher}

section restore

variable {leaves : Leaves} {mt mt' : lib.Tree} {entry : Nat × LeafData} {past : List (Nat × LeafData)}
  {choices : Nat} {e : JsError}

theorem setEntry_new {entries : List (Nat × LeafData)} (absent : entry.1 ∉ entries.map Prod.fst) :
    setEntry entry.1 entry.2 entries = entries ++ [entry] := by
  induction entries with
  | nil => rfl
  | cons first rest ih =>
      rw [List.map_cons, List.mem_cons, not_or] at absent
      rw [setEntry, if_neg (Ne.symm absent.1), ih absent.2, List.cons_append]

theorem Leaves.get_eq_of_perm {other : Leaves} (perm : other.entries.Perm leaves.entries) (idx : Nat) :
    other.get idx = leaves.get idx := by
  apply Option.ext
  intro data
  rw [get_eq_some_iff, get_eq_some_iff, perm.mem_iff]

theorem Leaves.get_eq_none (absent : entry.1 ∉ leaves.entries.map Prod.fst) : leaves.get entry.1 = none := by
  rw [Option.eq_none_iff_forall_not_mem]
  exact fun data found => absent (List.mem_map.2 ⟨(entry.1, data), get_eq_some_iff.1 found, rfl⟩)

theorem restoreLeaf_ok (correct : lib.Correct H stateDepth tree) {nodup : (past.map Prod.fst).Nodup}
    (holds : Holds (tree mt) ⟨past, nodup⟩) (inside : entry.1 < 2 ^ stateDepth)
    (absent : entry.1 ∉ past.map Prod.fst) (done : restoreLeaf mt entry = .ok mt') :
    ∀ nodup', Holds (tree mt') ⟨past ++ [entry], nodup'⟩ := by
  have free : (tree mt).lookup (entry.1 : Fr) 0 = none := by
    rw [holds.lookup _ inside, Leaves.get_eq_none absent, Option.map_none]
  unfold restoreLeaf at done
  split at done
  · next mt' added =>
      cases done
      intro nodup'
      have after := holds.set (correct.shaped mt).ordered (correct.shaped mt').ordered inside
        (correct.add_ok _ _ _ _ inside added) (show entry.2.hash = entry.2.hash from rfl)
      have same : Leaves.set ⟨past, nodup⟩ entry.1 entry.2 = ⟨past ++ [entry], nodup'⟩ := by
        simp only [Leaves.set, setEntry_new absent]
      rwa [same] at after
  · next present => exact absurd free ((correct.add_exists mt _ _ inside).1 present)
  · cases done

theorem restoreLeaf_error (correct : lib.Correct H stateDepth tree) {nodup : (past.map Prod.fst).Nodup}
    (holds : Holds (tree mt) ⟨past, nodup⟩) (inside : entry.1 < 2 ^ stateDepth)
    (absent : entry.1 ∉ past.map Prod.fst) (failed : restoreLeaf mt entry = .error e) :
    Rejected H (past.map Prod.fst) entry.1 e := by
  have free : (tree mt).lookup (entry.1 : Fr) 0 = none := by
    rw [holds.lookup _ inside, Leaves.get_eq_none absent, Option.map_none]
  unfold restoreLeaf at failed
  split at failed
  · cases failed
  · next present => exact absurd free ((correct.add_exists mt _ _ inside).1 present)
  · next other refused =>
      cases failed
      exact holds.rejected (correct.shaped _).ordered (correct.add_error _ _ _ _ inside refused other)

theorem restore_run (correct : lib.Correct H stateDepth tree)
    (inside : ∀ entry ∈ past, entry.1 < 2 ^ stateDepth)
    (run : Steps (fun mt entry mt' => restoreLeaf mt entry = .ok mt') lib.empty past mt) :
    ∀ nodup, Holds (tree mt) ⟨past, nodup⟩ := by
  refine run.invariant (I := fun past mt => ∀ nodup, Holds (tree mt) ⟨past, nodup⟩) (fun _ => ?_) ?_
  · rw [correct.empty]
    exact holds_empty
  · intro front mt entry mt' member before done nodup
    have apart := nodup
    rw [List.map_append, List.nodup_append] at apart
    refine restoreLeaf_ok correct (before apart.1) (inside entry member) (fun clash => ?_) done nodup
    exact apart.2.2 _ clash _ (by simp) rfl

theorem restore_ok (correct : lib.Correct H stateDepth tree) (kept : leaves.Kept H choices)
    (done : leaves.objectEntries.foldlM restoreLeaf lib.empty = .ok mt) : Holds (tree mt) leaves := by
  have perm := leaves.objectEntries_perm
  have holds := restore_run correct (fun entry member => kept.indices entry (perm.mem_iff.1 member))
    (foldlM_ok_iff.1 done) ((perm.map Prod.fst).nodup_iff.2 leaves.nodup)
  refine ⟨fun idx inside => ?_, holds.keys⟩
  rw [holds.lookup idx inside]
  exact congrArg (Option.map LeafData.hash) (Leaves.get_eq_of_perm perm idx)

theorem restore_error (correct : lib.Correct H stateDepth tree) (kept : leaves.Kept H choices)
    (failed : leaves.objectEntries.foldlM restoreLeaf lib.empty = .error e) :
    ∃ entry ∈ leaves.entries, Rejected H (leaves.entries.map Prod.fst) entry.1 e := by
  have perm := leaves.objectEntries_perm
  obtain ⟨past, entry, rest, mt, split, run, refused⟩ := foldlM_error failed
  have member {other : Nat × LeafData} (inside : other ∈ past ++ entry :: rest) : other ∈ leaves.entries :=
    perm.mem_iff.1 (split ▸ inside)
  have nodup := (perm.map Prod.fst).nodup_iff.2 leaves.nodup
  rw [split, List.map_append, List.map_cons, List.nodup_append] at nodup
  have holds := restore_run correct (fun other inside => kept.indices other (member (by simp [inside]))) run
    nodup.1
  refine ⟨entry, member (by simp), ?_⟩
  rcases restoreLeaf_error correct holds (kept.indices _ (member (by simp)))
    (fun clash => nodup.2.2 _ clash _ List.mem_cons_self rfl) refused
      with undefined | ⟨full, other, known, apart⟩
  · exact .inl undefined
  · obtain ⟨found, inside, rfl⟩ := List.mem_map.1 known
    exact .inr ⟨full, _, List.mem_map_of_mem (member (by simp [inside])), apart⟩

end restore

section opening

variable {leaves : Leaves} {t : SparseTree Fr} {store : Option TallyStore} {st : TallyLoop lib}
  {choices : Nat}
  {e : JsError}

def Apart (indices : List Nat) : Prop :=
  ∀ i ∈ indices, ∀ j ∈ indices, i % 2 ^ (stateDepth - 1) = j % 2 ^ (stateDepth - 1) → i = j

theorem Holds.apart (holds : Holds t leaves) (shaped : t.Shaped (stateDepth - 1))
    (kept : leaves.Kept H choices) : Apart (leaves.entries.map Prod.fst) := by
  have stored {idx : Nat} (member : idx ∈ leaves.entries.map Prod.fst) :
      idx < 2 ^ stateDepth ∧ ∃ value, t.slot (idx : Fr) 0 = .leaf (idx : Fr) value := by
    obtain ⟨⟨idx, data⟩, inside, rfl⟩ := List.mem_map.1 member
    have low := kept.indices _ inside
    have found := holds.lookup idx low
    rw [Leaves.get_eq_some_iff.2 inside, Option.map_some,
      SparseTree.lookup_eq_some_iff shaped.ordered] at found
    exact ⟨low, _, SparseTree.slot_of_mem shaped.ordered found⟩
  intro i inI j inJ same
  obtain ⟨lowI, valueI, slotI⟩ := stored inI
  obtain ⟨lowJ, valueJ, slotJ⟩ := stored inJ
  have agree : SparseTree.Agree (i : Fr) (j : Fr) 0 (t.sides (i : Fr) 0).length := by
    intro level inside
    have low : level < stateDepth - 1 :=
      lt_of_lt_of_le inside ((t.length_sides_le _ _).trans shaped.height)
    show (i : Fr).val.testBit (0 + level) = (j : Fr).val.testBit (0 + level)
    rw [cast_leaf lowI, cast_leaf lowJ, Nat.zero_add]
    have bits : (i % 2 ^ (stateDepth - 1)).testBit level = (j % 2 ^ (stateDepth - 1)).testBit level := by
      rw [same]
    rwa [Nat.testBit_mod_two_pow, Nat.testBit_mod_two_pow, decide_eq_true low, Bool.true_and,
      Bool.true_and] at bits
  rw [SparseTree.slot_of_agree agree, slotI] at slotJ
  have keys : (i : Fr) = (j : Fr) := by injection slotJ
  have vals := congrArg ZMod.val keys
  rwa [cast_leaf lowI, cast_leaf lowJ] at vals

structure TallyStore.Kept (H : IdealHash Fr) (choices : Nat) (s : TallyStore) : Prop where
  leaves : s.leaves.Kept H choices
  apart : Apart (s.leaves.entries.map Prod.fst)
  counts : s.tallyCounts.length = choices
  digest : ∃ h : Fr, h ≠ 0 ∧ s.runningMsgHashHex = toHex32 h.val
  salted : ∃ salt < 256 ^ 32, s.tallySaltHex = toHex32 salt ∧
    ∃ hash, H.hash ((salt : Fr) :: countsRow s.tallyCounts) = some hash

theorem val_lt_hex (x : Fr) : x.val < 256 ^ 32 :=
  (ZMod.val_lt x).trans (lt_of_lt_of_le scalarModulus_lt (by decide))

def storedIndices (store : Option TallyStore) : List Nat :=
  ((store.map TallyStore.leaves).getD .empty).entries.map Prod.fst

def storedCounts (store : Option TallyStore) : List Int := (store.map TallyStore.tallyCounts).getD []

theorem tallyOf_replicate (n : Nat) : tallyOf (List.replicate n 0) = fun _ => 0 := by
  funext i
  rw [tallyOf, List.getElem?_replicate]
  split_ifs <;> simp

structure Starts (tree : lib.Tree → SparseTree Fr) (H : IdealHash Fr) (choices : Nat)
    (store : Option TallyStore)
    (st : TallyLoop lib) : Prop where
  inStep : st.InStep tree H choices
  arrays : st.arrays = .ofRows []
  indices : st.leavesMap.entries.map Prod.fst = storedIndices store
  tally : st.acc.tally = tallyOf (storedCounts store)
  first : st.runningMsgHash = 0 → st.acc.tally = fun _ => 0

theorem openStore_ok (correct : lib.Correct H stateDepth tree) (kept : ∀ s ∈ store, s.Kept H poll.choices)
    (done : openStore lib poll store = .ok st) : Starts tree H poll.choices store st := by
  obtain ⟨mt, restored, done⟩ := bind_ok_iff.1 done
  obtain ⟨digest, read, done⟩ := bind_ok_iff.1 done
  cases done
  cases store with
  | none =>
      cases restored
      cases read
      refine ⟨⟨Leaves.kept_empty, ?_, List.length_replicate⟩, rfl, rfl, ?_, fun _ => tallyOf_replicate _⟩
      · show Holds (tree lib.empty) .empty
        rw [correct.empty]
        exact holds_empty
      · exact (tallyOf_replicate _).trans (tallyOf_replicate 0).symm
  | some s =>
      have kept := kept s rfl
      obtain ⟨h, nonzero, hex⟩ := kept.digest
      have isDigest : bigIntHex s.runningMsgHashHex = .ok h.val := by
        rw [hex, bigIntHex_toHex32 (val_lt_hex h)]
      rw [Option.map_some, Option.getD_some, isDigest, Except.ok.injEq] at read
      subst read
      refine ⟨⟨kept.leaves, restore_ok correct kept.leaves restored, kept.counts⟩, rfl, rfl, rfl,
        fun zero => ?_⟩
      exact absurd ((ZMod.natCast_zmod_val h).symm.trans zero) nonzero

theorem openStore_error (correct : lib.Correct H stateDepth tree) (kept : ∀ s ∈ store, s.Kept H poll.choices)
    (failed : openStore lib poll store = .error e) :
      ∃ inputs, e = .poseidon inputs ∧ H.hash inputs = none := by
  cases store with
  | none =>
      rcases bind_error_iff.1 failed with refused | ⟨_, _, failed⟩
      · cases refused
      · rcases bind_error_iff.1 failed with unread | ⟨_, _, nothing⟩
        · cases unread
        · cases nothing
  | some s =>
      have kept := kept s rfl
      rcases bind_error_iff.1 failed with refused | ⟨_, _, failed⟩
      · obtain ⟨entry, member, undefined | ⟨_, other, known, apart, same⟩⟩ :=
          restore_error correct kept.leaves refused
        · exact undefined
        · -- The tree that held these records before set their paths apart.
          exact absurd (kept.apart _ known _ (List.mem_map_of_mem member) same) apart
      · obtain ⟨h, _, hex⟩ := kept.digest
        rcases bind_error_iff.1 failed with unread | ⟨_, _, nothing⟩
        · rw [Option.map_some, Option.getD_some, hex, bigIntHex_toHex32 (val_lt_hex h)] at unread
          cases unread
        · cases nothing

end opening

section turns

theorem forall₂_append_left {A B : Type} {R : A → B → Prop} {as as' : List A} {bs : List B}
    (related : List.Forall₂ R (as ++ as') bs) :
    ∃ front rest, bs = front ++ rest ∧ List.Forall₂ R as front ∧ List.Forall₂ R as' rest :=
  ⟨bs.take as.length, bs.drop as.length, (List.take_append_drop _ _).symm,
    (List.forall₂_take_append _ _ _ related.flip).flip, (List.forall₂_drop_append _ _ _ related.flip).flip⟩

variable {st st' : TallyLoop lib} {batch : List VoteOut} {ballots : List Ballot} {choices : Nat} {e : JsError}

/-- The rows show messages that the tallier decrypts to these ballots. -/
abbrev Shows (cipher : Cipher) (keypair : Keypair) (choices : Nat) (batch : List VoteOut)
    (ballots : List Ballot) :
    Prop :=
  List.Forall₂ (fun v ballot => ∃ vote, Opened cipher keypair choices v vote ballot) batch ballots

structure TurnLabel where
  v : VoteOut
  vote : ReadVote
  ballot : Ballot
  msgHash : Fr
  row : TallyRow

structure Taken (tree : lib.Tree → SparseTree Fr) (H : IdealHash Fr) (cipher : Cipher) (keypair : Keypair)
    (choices : Nat) (st : TallyLoop lib) (l : TurnLabel) (st' : TallyLoop lib) : Prop where
  inStep : st.InStep tree H choices
  opened : Opened cipher keypair choices l.v l.vote l.ballot
  turn : ∃ proof, Turn tree H choices st l.vote l.ballot proof l.msgHash st' ∧
    l.row = rowOf st l.vote l.ballot proof

theorem votes_ok (correct : lib.Correct H stateDepth tree) (isHash0 : H.hash [0] = some hash0)
    (inStep : st.InStep tree H choices) (shows_ : Shows cipher keypair choices batch ballots)
    (run : Steps (fun st v st' => tallyVote H cipher keypair st v = .ok st') st batch st') :
    ∃ labels : List TurnLabel, labels.map TurnLabel.v = batch ∧ labels.map TurnLabel.ballot = ballots ∧
      Steps (Taken tree H cipher keypair choices) st labels st' ∧ st'.InStep tree H choices := by
  induction shows_ generalizing st with
  | nil =>
      rw [Steps.nil_iff.1 run] at inStep ⊢
      exact ⟨[], rfl, rfl, .nil _, inStep⟩
  | @cons v ballot batch ballots shown _ ih =>
      obtain ⟨vote, opened⟩ := shown
      obtain ⟨mid, first, rest⟩ := Steps.cons_iff.1 run
      obtain ⟨proof, msgHash, turn⟩ := tallyVote_ok correct isHash0 inStep opened first
      obtain ⟨labels, rfl, rfl, taken, final⟩ := ih turn.recorded.inStep rest
      exact ⟨⟨v, vote, ballot, msgHash, rowOf st vote ballot proof⟩ :: labels, rfl, rfl,
        .cons ⟨inStep, opened, proof, turn, rfl⟩ taken, final⟩

variable {labels : List TurnLabel} (run : Steps (Taken tree H cipher keypair choices) st labels st')

include run

theorem turns_arrays {rows : List TallyRow} (aligned : st.arrays = .ofRows rows) :
    st'.arrays = .ofRows (rows ++ labels.map TurnLabel.row) := by
  refine run.invariant (I := fun past mid => mid.arrays = .ofRows (rows ++ past.map TurnLabel.row))
    (by rw [List.map_nil, List.append_nil, aligned]) ?_
  rintro past mid l next _ before ⟨_, _, proof, turn, row⟩
  rw [turn.arrays _ before, ← row, List.map_append, List.map_singleton, List.append_assoc]

theorem turns_grown : ∀ idx ∈ st'.leavesMap.entries.map Prod.fst,
    idx ∈ st.leavesMap.entries.map Prod.fst ++ (labels.map TurnLabel.ballot).map leafIdx := by
  refine run.invariant (I := fun past mid => ∀ idx ∈ mid.leavesMap.entries.map Prod.fst,
    idx ∈ st.leavesMap.entries.map Prod.fst ++ (past.map TurnLabel.ballot).map leafIdx) (by simp) ?_
  rintro past mid l next _ before ⟨_, _, proof, turn, _⟩ idx member
  obtain ⟨entry, inside, rfl⟩ := List.mem_map.1 member
  rw [List.map_append, List.map_append, ← List.append_assoc, List.mem_append]
  rcases turn.recorded.grown entry inside with own | old
  · exact .inr (by simp [own])
  · exact .inl (before _ old)

theorem turns_digest (nonempty : labels ≠ []) : st'.runningMsgHash ≠ 0 := by
  obtain ⟨front, l, rfl⟩ := (List.eq_nil_or_concat' labels).resolve_left nonempty
  obtain ⟨_, _, ⟨_, _, _, turn, _⟩⟩ := Steps.snoc_iff.1 run
  intro zero
  have chained := turn.chained
  rw [zero] at chained
  exact H.ne_zero _ chained

theorem turns_entries (complete : G.Complete) (agrees : cipher.Agrees G) (isHash0 : H.hash [0] = some hash0)
    {empty : Fr} (isEmpty : H.hash [0, hash0] = some empty)
    (leaves : ∀ ballot ∈ labels.map TurnLabel.ballot, ∃ leaf,
      H.hash [ballot.choice, ballot.revotingKeyNew] = some leaf) :
    ∃ es : List (TallySingle stateDepth maxChoices), Steps (TallySingle.Step G) st.acc es st'.acc ∧
      es.map TallySingle.row = labels.map TurnLabel.row ∧
      es.map TallySingle.msgHash = labels.map TurnLabel.msgHash ∧
      ∀ e ∈ es, e.enabled = 1 ∧ e.tallierSk = keypair.sk ∧ e.Hints := by
  induction run with
  | nil => exact ⟨[], .nil _, rfl, rfl, by simp⟩
  | @cons st mid st' l labels first rest ih =>
      obtain ⟨inStep, opened, proof, turn, row⟩ := first
      obtain ⟨es, steps, rows, hashes, each⟩ := ih fun ballot member =>
        leaves ballot (List.mem_cons_of_mem _ member)
      obtain ⟨leaf, isLeaf⟩ := leaves l.ballot (by simp)
      obtain ⟨leafOld, isLeafOld⟩ : ∃ leafOld,
          H.hash [st.choiceOld l.ballot, st.revotingOld l.ballot] = some leafOld := by
        rw [choiceOld_eq, revotingOld_eq]
        obtain ⟨leafOld, hashed, _⟩ := (inStep.holds.tracks inStep.kept).exists_leafOld isEmpty
          (leafKey l.ballot)
        exact ⟨leafOld, hashed⟩
      obtain ⟨e, enters, msgHash⟩ := turn.exists_entry complete agrees isHash0 inStep opened isLeafOld isLeaf
      refine ⟨e :: es, .cons enters.step steps, ?_, ?_, ?_⟩
      · rw [List.map_cons, List.map_cons, enters.row, row, rows]
      · rw [List.map_cons, List.map_cons, msgHash, hashes]
      intro other member
      rcases List.mem_cons.1 member with rfl | later
      · exact ⟨enters.on, enters.sk, enters.hints⟩
      · exact each other later

/-- However the circuit takes the turns, it comes out where the loop does. -/
theorem turns_unique (complete : G.Complete) (agrees : cipher.Agrees G) (isHash0 : H.hash [0] = some hash0)
    {es : List (TallySingle stateDepth maxChoices)} {acc' : TallyAcc maxChoices}
    (steps : Steps (TallySingle.Step G) st.acc es acc')
    (rows : es.map TallySingle.row = labels.map TurnLabel.row)
    (each : ∀ e ∈ es, e.enabled = 1 ∧ e.tallierSk = keypair.sk ∧ e.Hints) : acc' = st'.acc := by
  induction run generalizing es with
  | nil =>
      rw [List.map_nil, List.map_eq_nil_iff] at rows
      subst rows
      exact (Steps.nil_iff.1 steps).symm
  | @cons st mid st' l labels first rest ih =>
      obtain ⟨inStep, opened, proof, turn, row⟩ := first
      obtain ⟨e, es, rfl, ownRow, rows⟩ := List.map_eq_cons_iff.1 rows
      obtain ⟨next, step, steps⟩ := Steps.cons_iff.1 steps
      obtain ⟨on, sk, hints⟩ := each e List.mem_cons_self
      have same := turn.unique complete agrees isHash0 inStep opened ⟨step, on, sk, hints, ownRow.trans row⟩
      subst same
      exact ih steps rows fun other member => each other (List.mem_cons_of_mem _ member)

end turns

section padding

theorem padOnce_ofRows (rows : List TallyRow) (last : TallyRow) :
    padOnce (.ofRows (rows ++ [last])) = .ofRows (rows ++ [last] ++ [last]) := by
  simp [padOnce, pushLast, TallyArrays.ofRows]

theorem padArrays_ofRows (rows : List TallyRow) (last : TallyRow) :
    padArrays (.ofRows (rows ++ [last])) =
      .ofRows (rows ++ [last] ++ List.replicate (maxBatch - (rows.length + 1)) last) := by
  have length : (TallyArrays.ofRows (rows ++ [last])).ephPk.length = rows.length + 1 := by
    simp [TallyArrays.ofRows]
  rw [padArrays, length]
  generalize maxBatch - (rows.length + 1) = n
  clear length
  induction n generalizing rows with
  | zero => simp
  | succ n ih =>
      rw [Function.iterate_succ_apply, padOnce_ofRows, ih, List.replicate_succ,
        List.append_assoc (rows ++ [last]),
        List.singleton_append]

end padding

section building

variable {store : Option TallyStore} {batch : List VoteOut} {ballots : List Ballot} {saltU8b : Fin 8 → UInt8}
  {built : TallyBatch} {opened st : TallyLoop lib} {labels : List TurnLabel} {saltOld : Nat} {e : JsError}

structure Built (tree : lib.Tree → SparseTree Fr) (H : IdealHash Fr) (cipher : Cipher) (poll : PollDetail)
    (keypair : Keypair) (store : Option TallyStore) (batch : List VoteOut) (ballots : List Ballot)
    (built : TallyBatch) (opened st : TallyLoop lib) (labels : List TurnLabel) (saltOld : Nat) : Prop where
  votes : labels.map TurnLabel.v = batch
  ballots : labels.map TurnLabel.ballot = ballots
  nonempty : labels ≠ []
  starts : Starts tree H poll.choices store opened
  turns : Steps (Taken tree H cipher keypair poll.choices) opened labels st
  inStep : st.InStep tree H poll.choices
  readSalt : (store.map fun s => bigIntHex s.tallySaltHex).getD (.ok 0) = .ok saltOld
  smallSalt : built.tallySaltNew < 256 ^ 32
  hashed : H.hash ((built.tallySaltNew : Fr) :: countsRow built.tallyCounts) = some built.tallyHashNew
  inputs : built.inputs =
    { toTallyArrays := padArrays (.ofRows (labels.map TurnLabel.row))
      rootOld := opened.acc.root
      cumulativeMsgHashOld := opened.acc.cumulativeMsgHash
      tallySaltOld := saltOld
      tallySaltNew := built.tallySaltNew
      tallyOld := List.ofFn opened.acc.tally
      batchLen := (labels.length : Nat)
      tallierSk := keypair.sk }
  acc : st.acc =
    { root := built.rootNew, cumulativeMsgHash := built.runningMsgHash, tally := tallyOf built.tallyCounts }
  counts : built.tallyCounts = st.tallyCounts
  leavesMap : built.leavesMap = st.leavesMap

theorem ofBytesBE_lt (bytes : List UInt8) : ofBytesBE bytes < 256 ^ bytes.length := by
  induction bytes using List.reverseRecOn with
  | nil => simp [ofBytesBE]
  | append_singleton front b ih =>
      have below := b.toNat_lt
      have last : ofBytesBE (front ++ [b]) = ofBytesBE front * 256 + b.toNat := by simp [ofBytesBE]
      rw [last, List.length_append, List.length_singleton, Nat.pow_succ]
      omega

theorem onTallyNext_ok (correct : lib.Correct H stateDepth tree) (isHash0 : H.hash [0] = some hash0)
    (kept : ∀ s ∈ store, s.Kept H poll.choices) (shows_ : Shows cipher keypair poll.choices batch ballots)
    (done : onTallyNext H lib cipher poll keypair store batch saltU8b = .ok built) :
    ∃ (opened st : TallyLoop lib) (labels : List TurnLabel) (saltOld : Nat),
      Built tree H cipher poll keypair store batch ballots built opened st labels saltOld := by
  obtain ⟨_, started, done⟩ := bind_ok_iff.1 done
  obtain ⟨opened, opening, done⟩ := bind_ok_iff.1 done
  obtain ⟨st, voted, done⟩ := bind_ok_iff.1 done
  obtain ⟨saltOld, readSalt, done⟩ := bind_ok_iff.1 done
  obtain ⟨tallyHashNew, hashed, done⟩ := bind_ok_iff.1 done
  cases done
  have starts := openStore_ok correct kept opening
  obtain ⟨labels, isBatch, isBallots, turns, final⟩ :=
    votes_ok correct isHash0 starts.inStep shows_ (foldlM_ok_iff.1 voted)
  refine ⟨opened, st, labels, saltOld,
    { votes := isBatch
      ballots := isBallots
      nonempty := ?_
      starts, turns
      inStep := final
      readSalt
      smallSalt := ?_
      hashed := poseidon_ok_iff.1 hashed
      inputs := ?_
      acc := rfl
      counts := rfl
      leavesMap := rfl }⟩
  · rintro rfl
    subst isBatch
    cases started
  · refine (ofBytesBE_lt _).trans ?_
    rw [List.length_ofFn]
    decide
  · have arrays := turns_arrays turns starts.arrays
    rw [List.nil_append] at arrays
    rw [← isBatch, List.length_map, arrays, starts.tally]
    rfl

theorem Built.state (correct : lib.Correct H stateDepth tree)
    (made : Built tree H cipher poll keypair store batch ballots built opened st labels saltOld) :
    (tree st.mt).Shaped (stateDepth - 1) ∧ (tree st.mt).commit H = some built.rootNew ∧
      Tracks H built.leavesMap.book (tree st.mt) := by
  refine ⟨correct.shaped _, ?_, ?_⟩
  · rw [correct.root, ← show st.acc.root = built.rootNew by rw [made.acc]]
    rfl
  · rw [made.leavesMap]
    exact made.inStep.holds.tracks made.inStep.kept

structure CircuitHashes (H : IdealHash Fr) (store : Option TallyStore) (batch : List VoteOut)
    (ballots : List Ballot) (built : TallyBatch) : Prop where
  noVote : ∃ empty, H.hash [0, hash0] = some empty
  noTally : store = none → ∃ hash, H.hash (0 :: List.replicate maxChoices 0) = some hash
  -- The code hashes the leaves of valid votes only.
  leaves : ∀ ballot ∈ ballots, ∃ leaf, H.hash [ballot.choice, ballot.revotingKeyNew] = some leaf
  -- Entries that fill the batch up absorb the last message again.
  idle : batch.length < maxBatch → ∀ v ∈ batch.getLast?, ∀ vote msgHash, readVote v = some vote →
    H.hash vote.preimage = some msgHash → ∃ next, H.hash [built.runningMsgHash, msgHash] = some next

theorem Built.hashedOld (made : Built tree H cipher poll keypair store batch ballots built opened st
    labels saltOld)
    (kept : ∀ s ∈ store, s.Kept H poll.choices) (hashes : CircuitHashes H store batch ballots built) :
    ∃ hash, H.hash ((saltOld : Fr) :: List.ofFn opened.acc.tally) = some hash := by
  rw [made.starts.tally]
  have read := made.readSalt
  cases store with
  | none =>
      rw [Option.map_none, Option.getD_none, Except.ok.injEq] at read
      subst read
      obtain ⟨hash, hashed⟩ := hashes.noTally rfl
      refine ⟨hash, ?_⟩
      rw [show tallyOf (storedCounts none) = fun _ => 0 from tallyOf_replicate 0, List.ofFn_const,
        Nat.cast_zero]
      exact hashed
  | some s =>
      obtain ⟨salt, small, hex, hash, hashed⟩ := (kept s rfl).salted
      rw [Option.map_some, Option.getD_some, hex, bigIntHex_toHex32 small, Except.ok.injEq] at read
      subst read
      exact ⟨hash, hashed⟩

theorem Built.satisfied (made : Built tree H cipher poll keypair store batch ballots built opened st
    labels saltOld)
    (complete : G.Complete) (agrees : cipher.Agrees G) (isHash0 : H.hash [0] = some hash0)
    (kept : ∀ s ∈ store, s.Kept H poll.choices) (fits : batch.length ≤ maxBatch)
    (hashes : CircuitHashes H store batch ballots built) :
    ∃ w : Tally stateDepth maxChoices maxBatch, w.Constraints G ∧ w.Hints ∧ w.inputs = built.inputs := by
  obtain ⟨empty, isEmpty⟩ := hashes.noVote
  obtain ⟨hashOld, hashedOld⟩ := made.hashedOld kept hashes
  obtain ⟨es, steps, rows, msgHashes, each⟩ := turns_entries made.turns complete agrees isHash0 isEmpty
    fun ballot member => hashes.leaves ballot (made.ballots ▸ member)
  obtain ⟨past, label, rfl⟩ := (List.eq_nil_or_concat' labels).resolve_left made.nonempty
  obtain ⟨front, last, rfl⟩ := (List.eq_nil_or_concat' es).resolve_left fun none => by simp [none] at rows
  obtain ⟨_, ownRow⟩ : front.map TallySingle.row = past.map TurnLabel.row ∧ last.row = label.row := by
    simpa using rows
  obtain ⟨_, ownHash⟩ : front.map TallySingle.msgHash = past.map TurnLabel.msgHash ∧
      last.msgHash = label.msgHash := by simpa using msgHashes
  have length : front.length = past.length := by simpa using congrArg List.length rows
  have batchLength : past.length + 1 = batch.length := by simp [← made.votes]
  obtain ⟨_, _, ⟨_, opened', proof, turn, _⟩⟩ := Steps.snoc_iff.1 made.turns
  have idle : front.length + 1 < maxBatch → ∃ next,
    H.hash [st.acc.cumulativeMsgHash, last.msgHash] = some next := by
    intro short
    rw [made.acc, ownHash]
    exact hashes.idle (by omega) label.v (by simp [← made.votes]) label.vote label.msgHash
      opened'.read turn.hashed
  have hashedNew : H.hash ((built.tallySaltNew : Fr) :: List.ofFn st.acc.tally) =
    some built.tallyHashNew := by
    rw [made.acc]
    exact made.hashed
  obtain ⟨w, constraints, hints, inputs⟩ := Tally.exists_batch complete (by decide)
    (show front.length + 1 ≤ maxBatch by omega) steps each idle hashedOld hashedNew made.starts.first
  refine ⟨w, constraints, hints, ?_⟩
  rw [inputs, made.inputs, rows, ownRow, length, List.map_append, List.map_singleton, padArrays_ofRows,
    List.length_map, List.length_append, List.length_singleton]

/-- Whatever the circuit assigns on the inputs, its outputs are those that were built. -/
theorem Built.outputs (made : Built tree H cipher poll keypair store batch ballots built opened st
    labels saltOld)
    (complete : G.Complete) (agrees : cipher.Agrees G) (isHash0 : H.hash [0] = some hash0)
    {w : Tally stateDepth maxChoices maxBatch} (constraints : w.Constraints G) (hints : w.Hints)
    (given : w.inputs = built.inputs) :
    w.rootNew = built.rootNew ∧ w.cumulativeMsgHashNew = built.runningMsgHash ∧
      w.tallyHashNew = built.tallyHashNew := by
  rw [made.inputs, Tally.inputs, TallyInputs.mk.injEq] at given
  obtain ⟨arrays, rootOld, hashOld, _, saltNew, tallyOld, batchLen, sk⟩ := given
  have first : w.acc 0 = opened.acc := by
    rw [constraints.accZero, rootOld, hashOld, List.ofFn_injective tallyOld]
  obtain ⟨past, label, rfl⟩ := (List.eq_nil_or_concat' labels).resolve_left made.nonempty
  rw [List.map_append, List.map_singleton, padArrays_ofRows] at arrays
  obtain ⟨es, rows, each, run⟩ := constraints.enabled_run (by decide) arrays (by simpa using batchLen)
  rw [first] at run
  have final := turns_unique made.turns complete agrees isHash0 run (by simpa using rows) fun e member =>
    ⟨(each e member).2.1, (each e member).2.2.trans sk, hints e (each e member).1⟩
  rw [made.acc, Tally.acc, TallyAcc.mk.injEq] at final
  obtain ⟨root, digest, tally⟩ := final
  refine ⟨constraints.rootNew.trans root, constraints.cumulativeMsgHashNew.trans digest, ?_⟩
  have hashed := constraints.tallyHashNew
  rw [saltNew, tally] at hashed
  exact Option.some.inj (hashed.symm.trans made.hashed)

theorem Built.newStore_kept (correct : lib.Correct H stateDepth tree) {last : VoteOut}
    (made : Built tree H cipher poll keypair store batch ballots built opened st labels saltOld) :
    (newStore poll keypair store batch built last built.runningMsgHash).Kept H poll.choices := by
  have kept : built.leavesMap.Kept H poll.choices := made.leavesMap ▸ made.inStep.kept
  have holds : Holds (tree st.mt) built.leavesMap := made.leavesMap ▸ made.inStep.holds
  have nonzero : built.runningMsgHash ≠ 0 := by
    rw [← show st.acc.cumulativeMsgHash = built.runningMsgHash by rw [made.acc]]
    exact turns_digest made.turns made.nonempty
  have counts : built.tallyCounts.length = poll.choices := made.counts ▸ made.inStep.counts
  unfold newStore
  exact
    { leaves := kept
      apart := holds.apart (correct.shaped _) kept
      counts
      digest := ⟨built.runningMsgHash, nonzero, by simp only⟩
      salted := ⟨built.tallySaltNew, made.smallSalt, by simp only, built.tallyHashNew, made.hashed⟩ }

theorem Built.proved (correct : lib.Correct H stateDepth tree)
    (made : Built tree H cipher poll keypair store batch ballots built opened st labels saltOld)
    (complete : G.Complete) (agrees : cipher.Agrees G) (isHash0 : H.hash [0] = some hash0)
    {w : Tally stateDepth maxChoices maxBatch} (constraints : w.Constraints G) (hints : w.Hints)
    (given : w.inputs = built.inputs) :
    ∃ sub, onProved H poll keypair store batch built w.publicSignals = .ok sub ∧
      sub.initialTallyHash = (if store.isNone then some w.tallyHashOld else none) ∧
      sub.newStore.leaves = built.leavesMap ∧ sub.newStore.Kept H poll.choices := by
  obtain ⟨root, digest, tally⟩ := made.outputs complete agrees isHash0 constraints hints given
  obtain ⟨past, label, rfl⟩ := (List.eq_nil_or_concat' labels).resolve_left made.nonempty
  have last : batch.getLast? = some label.v := by simp [← made.votes]
  have initial : initialTallyHash H store built =
    .ok (if store.isNone then some w.tallyHashOld else none) := by
    cases store with
    | some s => rfl
    | none =>
        have hashed := constraints.tallyHashOld
        rw [show w.tallySaltOld = built.inputs.tallySaltOld by rw [← given]; rfl,
          show List.ofFn w.tallyOld = built.inputs.tallyOld by rw [← given]; rfl] at hashed
        exact bind_ok_iff.2 ⟨_, poseidon_ok_iff.2 hashed, rfl⟩
  refine ⟨
    { initialTallyHash := if store.isNone then some w.tallyHashOld else none
      rootNew := built.rootNew
      cumulativeMsgHashNew := built.runningMsgHash
      tallyHashNew := built.tallyHashNew
      newStore := newStore poll keypair store batch built label.v built.runningMsgHash }, ?_, rfl, rfl,
    made.newStore_kept correct⟩
  unfold onProved Tally.publicSignals
  simp only [last, root, digest, tally, decide_true, check_true, initial]
  rfl

/-- The browser throws only where a hash is not defined or where two indices share a path. -/
theorem onTallyNext_error (correct : lib.Correct H stateDepth tree) (isHash0 : H.hash [0] = some hash0)
    (kept : ∀ s ∈ store, s.Kept H poll.choices) (shows_ : Shows cipher keypair poll.choices batch ballots)
    (nonempty : batch ≠ [])
    (failed : onTallyNext H lib cipher poll keypair store batch saltU8b = .error e) :
    (∃ inputs, e = .poseidon inputs ∧ H.hash inputs = none) ∨
      e = .reachedMaxLevel ∧ ¬ Apart (storedIndices store ++ ballots.map leafIdx) := by
  rcases bind_error_iff.1 failed with none | ⟨_, _, failed⟩
  · rw [List.isEmpty_eq_false_iff.2 nonempty] at none
    cases none
  rcases bind_error_iff.1 failed with unopened | ⟨opened, opening, failed⟩
  · exact .inl (openStore_error correct kept unopened)
  rcases bind_error_iff.1 failed with stuck | ⟨st, _, failed⟩
  · have starts := openStore_ok correct kept opening
    obtain ⟨past, v, rest, mid, rfl, run, refused⟩ := foldlM_error stuck
    obtain ⟨ballotsPast, ballotsRest, rfl, shownPast, shownRest⟩ := forall₂_append_left shows_
    cases shownRest with
    | @cons _ ballot _ _ shown _ =>
        obtain ⟨vote, opened'⟩ := shown
        obtain ⟨labels, rfl, rfl, taken, inStep⟩ := votes_ok correct isHash0 starts.inStep shownPast run
        refine (tallyVote_error correct isHash0 inStep opened' refused).imp_right ?_
        rintro ⟨full, other, known, apart, same⟩
        refine ⟨full, fun far => apart (far _ ?_ _ ?_ same)⟩
        · have grown := turns_grown taken other known
          rw [starts.indices] at grown
          rw [List.map_append, ← List.append_assoc]
          exact List.mem_append_left _ grown
        · simp
  rcases bind_error_iff.1 failed with unread | ⟨_, _, failed⟩
  · cases store with
    | none => cases unread
    | some s =>
        obtain ⟨salt, small, hex, _⟩ := (kept s rfl).salted
        rw [Option.map_some, Option.getD_some, hex, bigIntHex_toHex32 small] at unread
        cases unread
  rcases bind_error_iff.1 failed with undefined | ⟨_, _, nothing⟩
  · obtain ⟨none, rfl⟩ := poseidon_error_iff.1 undefined
    exact .inl ⟨_, rfl, none⟩
  · cases nothing

end building

end Mootvote.Frontend
