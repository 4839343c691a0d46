import Mootvote.Frontend.Tally

set_option autoImplicit false

/-!
# One vote, in the browser and in the circuit

The tallier's records are the leaves of its tree. A turn of the loop changes both as an entry of the batch
changes the circuit's accumulator, and pushes that entry's inputs.
-/

namespace Mootvote.Frontend

open Shared SparseMerkle Indexer

variable {H : IdealHash Fr} {G : Gadgets H} {lib : Merkletree} {tree : lib.Tree → SparseTree Fr}
  {poll : PollDetail} {keypair : Keypair} {cipher : Cipher}

section leaves

theorem cast_leaf {idx : Nat} (inside : idx < 2 ^ stateDepth) : ((idx : Nat) : Fr).val = idx :=
  val_cast_fin (by decide) ⟨idx, inside⟩

def Leaves.book (leaves : Leaves) : Book (Fin (2 ^ stateDepth)) :=
  fun k => (leaves.get k.val).map fun data => (data.choice, data.revotingKey)

structure Leaves.Kept (H : IdealHash Fr) (choices : Nat) (leaves : Leaves) : Prop where
  indices : ∀ entry ∈ leaves.entries, entry.1 < 2 ^ stateDepth
  hashed : ∀ entry ∈ leaves.entries, H.hash [entry.2.choice, entry.2.revotingKey] = some entry.2.hash
  choices : ∀ entry ∈ leaves.entries, entry.2.choice.val ≤ choices

structure Holds (t : SparseTree Fr) (leaves : Leaves) : Prop where
  lookup : ∀ idx : Nat, idx < 2 ^ stateDepth → t.lookup (idx : Fr) 0 = (leaves.get idx).map LeafData.hash
  keys : ∀ entry ∈ t.leaves, entry.1.val < 2 ^ stateDepth

variable {leaves : Leaves} {t t' : SparseTree Fr} {choices idx : Nat} {data : LeafData}

theorem Leaves.kept_empty : Leaves.empty.Kept H choices := by
  constructor <;> simp [empty]

theorem Leaves.Kept.set (kept : leaves.Kept H choices) (inside : idx < 2 ^ stateDepth)
    (hashed : H.hash [data.choice, data.revotingKey] = some data.hash) (few : data.choice.val ≤ choices) :
    (leaves.set idx data).Kept H choices := by
  constructor <;> intro entry member <;> rcases mem_set member with rfl | old
  · exact inside
  · exact kept.indices entry old
  · exact hashed
  · exact kept.hashed entry old
  · exact few
  · exact kept.choices entry old

theorem holds_empty : Holds .empty .empty where
  lookup _ _ := rfl
  keys := by simp [SparseTree.leaves]

theorem Holds.set {value : Fr} (holds : Holds t leaves) (shaped : t.Ordered 0) (shaped' : t'.Ordered 0)
    (inside : idx < 2 ^ stateDepth) (binds : Binds t t' (idx : Fr) value) (same : data.hash = value) :
    Holds t' (leaves.set idx data) := by
  refine ⟨fun other low => ?_, fun entry member => ?_⟩
  · rw [binds, Leaves.get_set]
    by_cases own : other = idx
    · rw [if_pos (by rw [own]), if_pos own, Option.map_some, same]
    · have apart : ((other : Nat) : Fr) ≠ (idx : Fr) := by
        intro equal
        have vals := congrArg ZMod.val equal
        rw [cast_leaf low, cast_leaf inside] at vals
        exact own vals
      rw [if_neg apart, if_neg own]
      exact holds.lookup other low
  · have found := (SparseTree.lookup_eq_some_iff shaped' entry.1 entry.2).2 member
    rw [binds] at found
    by_cases own : entry.1 = (idx : Fr)
    · rwa [own, cast_leaf inside]
    · rw [if_neg own] at found
      exact holds.keys entry ((SparseTree.lookup_eq_some_iff shaped _ _).1 found)

theorem Holds.mem (holds : Holds t leaves) (ordered : t.Ordered 0) {entry : Fr × Fr}
    (member : entry ∈ t.leaves) :
    ∃ data, (entry.1.val, data) ∈ leaves.entries ∧ data.hash = entry.2 := by
  have found := (SparseTree.lookup_eq_some_iff ordered entry.1 entry.2).2 member
  have looked := holds.lookup entry.1.val (holds.keys entry member)
  rw [ZMod.natCast_zmod_val, found, eq_comm, Option.map_eq_some_iff] at looked
  obtain ⟨data, recorded, same⟩ := looked
  exact ⟨data, Leaves.get_eq_some_iff.1 recorded, same⟩

theorem Holds.tracks (holds : Holds t leaves) (kept : leaves.Kept H choices) : Tracks H leaves.book t where
  entries k := by
    rw [holds.lookup k.val k.isLt, Leaves.book]
    cases recorded : leaves.get k.val with
    | none => exact .none
    | some data => exact .some (kept.hashed _ (Leaves.get_eq_some_iff.1 recorded))
  keys := holds.keys

/-- No stored value is zero, so the code can tell an empty slot from another leaf. -/
theorem Holds.ne_zero (holds : Holds t leaves) (kept : leaves.Kept H choices) (ordered : t.Ordered 0)
    {entry : Fr × Fr} (member : entry ∈ t.leaves) : entry.2 ≠ 0 := by
  obtain ⟨data, recorded, same⟩ := holds.mem ordered member
  intro zero
  have hashed := kept.hashed _ recorded
  rw [same, zero] at hashed
  exact H.ne_zero _ hashed

end leaves

section counts

def tallyOf (counts : List Int) : Fin maxChoices → Fr := fun i => ((counts[i.val]?.getD 0 : Int) : Fr)

theorem isEqual_choice (c : Fr) (i : Fin maxChoices) :
    isEqual c (i.val + 1 : Nat) = if c.val = i.val + 1 then 1 else 0 := by
  have val : (((i.val + 1 : Nat) : Fr)).val = i.val + 1 := by
    rw [ZMod.val_natCast]
    exact Nat.mod_eq_of_lt (lt_of_le_of_lt (Nat.succ_le_of_lt i.isLt) (by decide))
  unfold isEqual
  refine if_congr ⟨fun same => ?_, fun same => ?_⟩ rfl rfl
  · rw [same, val]
  · apply ZMod.val_injective
    rw [same, val]

theorem addToCount_spec {counts : List Int} {c : Fr} (inside : c.val ≤ counts.length) (delta : Int) :
    ∃ counts', addToCount counts c delta = .ok counts' ∧ counts'.length = counts.length ∧
      ∀ i, tallyOf counts' i = tallyOf counts i + delta * isEqual c (i.val + 1 : Nat) := by
  by_cases zero : c = 0
  · refine ⟨counts, by rw [addToCount, if_pos zero], rfl, fun i => ?_⟩
    rw [isEqual_choice, zero, if_neg (by simp), mul_zero, add_zero]
  · have positive : 0 < c.val := Nat.pos_of_ne_zero fun none => zero ((ZMod.val_eq_zero c).1 none)
    have below : c.val - 1 < counts.length := by omega
    refine ⟨_, by rw [addToCount, if_neg zero, List.getElem?_eq_getElem below], by simp, fun i => ?_⟩
    rw [isEqual_choice, tallyOf, tallyOf]
    by_cases own : c.val = i.val + 1
    · have here : i.val = c.val - 1 := by omega
      rw [if_pos own, mul_one, here, List.getElem?_set_self below, List.getElem?_eq_getElem below,
        Option.getD_some, Option.getD_some, Int.cast_add]
    · rw [if_neg own, mul_zero, add_zero, List.getElem?_set_ne (by omega)]

theorem moveCount_spec {counts : List Int} {choiceOld choice : Fr} (old : choiceOld.val ≤ counts.length)
    (new : choice.val ≤ counts.length) :
    ∃ counts', moveCount counts choiceOld choice = .ok counts' ∧ counts'.length = counts.length ∧
      ∀ i, tallyOf counts' i = tallyChoice 1 choiceOld choice (i.val + 1 : Nat) (tallyOf counts i) := by
  obtain ⟨mid, taken, length, before⟩ := addToCount_spec old (-1)
  obtain ⟨counts', given, length', after⟩ := addToCount_spec (c := choice) (by rwa [length]) 1
  refine ⟨counts', bind_ok_iff.2 ⟨mid, taken, given⟩, length'.trans length, fun i => ?_⟩
  rw [after, before, tallyChoice]
  push_cast
  ring

end counts

section record

variable {st st' : TallyLoop lib} {ballot : Ballot} {proof : CircomProcessorProof} {mt mt' : lib.Tree}
  {choices idx : Nat} {leaf leafEmpty : Fr} {e : JsError}

theorem addOrUpdate_ok (correct : lib.Correct H stateDepth tree) (inside : idx < 2 ^ stateDepth)
    (done : addOrUpdate mt idx leaf = .ok (proof, mt', leafEmpty)) :
    Binds (tree mt) (tree mt') (idx : Fr) leaf ∧ proof.siblings.length = stateDepth ∧
      ((tree mt).lookup (idx : Fr) 0 = none ∧ leafEmpty = 1 ∧
          proof.opening.Inserts H (lib.root mt) (idx : Fr) leaf (lib.root mt') ∨
        (tree mt).lookup (idx : Fr) 0 ≠ none ∧ leafEmpty = 0 ∧ proof.isOld0 = false ∧
          proof.opening.Updates H (lib.root mt) (idx : Fr) leaf (lib.root mt')) := by
  unfold addOrUpdate at done
  split at done
  · next proof mt' added =>
      cases done
      obtain ⟨binds, length, inserts⟩ := correct.addAndGetCircomProof_ok _ _ _ _ _ inside added
      have absent : (tree mt).lookup (idx : Fr) 0 = none := by
        by_contra present
        rw [(correct.addAndGetCircomProof_exists mt idx leaf inside).2 present] at added
        cases added
      exact ⟨binds, length, .inl ⟨absent, rfl, inserts⟩⟩
  · next exists_ =>
      obtain ⟨⟨proof, mt'⟩, updated, same⟩ := bind_ok_iff.1 done
      cases same
      obtain ⟨binds, length, occupied, updates⟩ := correct.update_ok _ _ _ _ _ inside updated
      exact ⟨binds, length,
        .inr ⟨(correct.addAndGetCircomProof_exists mt idx leaf inside).1 exists_, rfl, occupied, updates⟩⟩
  · cases done

theorem addOrUpdate_error (correct : lib.Correct H stateDepth tree) (inside : idx < 2 ^ stateDepth)
    (failed : addOrUpdate mt idx leaf = .error e) : Refused H stateDepth (tree mt) idx e := by
  unfold addOrUpdate at failed
  split at failed
  · cases failed
  · next exists_ =>
      rcases bind_error_iff.1 failed with refused | ⟨_, _, nothing⟩
      · exact correct.update_error _ _ _ _ inside refused
          ((correct.addAndGetCircomProof_exists mt idx leaf inside).1 exists_)
      · cases nothing
  · next other refused =>
      cases failed
      exact correct.addAndGetCircomProof_error _ _ _ _ inside refused other

/-- The records, the tree and the counts belong together. -/
structure TallyLoop.InStep (tree : lib.Tree → SparseTree Fr) (H : IdealHash Fr) (choices : Nat)
    (st : TallyLoop lib) : Prop where
  kept : st.leavesMap.Kept H choices
  holds : Holds (tree st.mt) st.leavesMap
  counts : st.tallyCounts.length = choices

def TallyLoop.acc (st : TallyLoop lib) : TallyAcc maxChoices :=
  { root := lib.root st.mt, cumulativeMsgHash := st.runningMsgHash, tally := tallyOf st.tallyCounts }

abbrev leafKey (ballot : Ballot) : Fin (2 ^ stateDepth) := reducedNu stateDepth ballot.nu

structure Recorded (tree : lib.Tree → SparseTree Fr) (H : IdealHash Fr) (choices : Nat) (st : TallyLoop lib)
    (ballot : Ballot) (proof : CircomProcessorProof) (st' : TallyLoop lib) : Prop where
  inStep : st'.InStep tree H choices
  length : proof.siblings.length = stateDepth
  shown : proof.opening.Verifies H (lib.root st.mt) (((leafKey ballot).val : Nat) : Fr)
    ((tree st.mt).lookup (((leafKey ballot).val : Nat) : Fr) 0)
  occupied : st.leavesMap.book (leafKey ballot) ≠ none → proof.opening.isOld0 = false
  processed : ∀ leafNew, H.hash [ballot.choice, ballot.revotingKeyNew] = some leafNew →
    Processed H st.leavesMap.book (leafKey ballot) ballot leafNew proof.opening (lib.root st.mt)
      (lib.root st'.mt)
  counted : ∀ i, tallyOf st'.tallyCounts i = tallyChoice
    (if st.leavesMap.book.revotingKey H (leafKey ballot) = some ballot.revotingKeyOld then 1 else 0)
    (((st.leavesMap.book (leafKey ballot)).map Prod.fst).getD 0) ballot.choice (i.val + 1 : Nat)
    (tallyOf st.tallyCounts i)
  grown : ∀ entry ∈ st'.leavesMap.entries,
    entry.1 = leafIdx ballot ∨ entry.1 ∈ st.leavesMap.entries.map Prod.fst

def Pushed (st : TallyLoop lib) (ballot : Ballot) (st' : TallyLoop lib) : Prop :=
  st'.runningMsgHash = st.runningMsgHash ∧
    st'.arrays = st.pushWasLeafEmpty (if st.leavesMap.book (leafKey ballot) = none then 1 else 0)

theorem choiceOld_eq (st : TallyLoop lib) (ballot : Ballot) :
    st.choiceOld ballot = ((st.leavesMap.book (leafKey ballot)).map Prod.fst).getD 0 := by
  rw [Leaves.book, Option.map_map]
  rfl

theorem revotingOld_eq (st : TallyLoop lib) (ballot : Ballot) :
    st.revotingOld ballot = ((st.leavesMap.book (leafKey ballot)).map Prod.snd).getD hash0 := by
  rw [Leaves.book, Option.map_map]
  rfl

theorem book_eq_none_iff {leaves : Leaves} {ballot : Ballot} :
    leaves.book (leafKey ballot) = none ↔ leaves.get (leafIdx ballot) = none := by
  rw [Leaves.book, Option.map_eq_none_iff]
  rfl

theorem valid_iff (isHash0 : H.hash [0] = some hash0) (st : TallyLoop lib) (ballot : Ballot) :
    st.leavesMap.book.revotingKey H (leafKey ballot) = some ballot.revotingKeyOld ↔
      st.revotingOld ballot = ballot.revotingKeyOld := by
  rw [Book.revotingKey_eq _ isHash0, Option.some.injEq, revotingOld_eq]

theorem leafIdx_lt (ballot : Ballot) : leafIdx ballot < 2 ^ stateDepth := (leafKey ballot).isLt

namespace TallyLoop.InStep

variable (inStep : st.InStep tree H choices)

include inStep

theorem choiceOld_le (ballot : Ballot) : (st.choiceOld ballot).val ≤ st.tallyCounts.length := by
  rw [inStep.counts, TallyLoop.choiceOld]
  cases recorded : st.leafOld ballot with
  | none => simp
  | some data => exact inStep.kept.choices _ (Leaves.get_eq_some_iff.1 recorded)

theorem lookup_eq (ballot : Ballot) : (tree st.mt).lookup ((leafIdx ballot : Nat) : Fr) 0 =
    (st.leafOld ballot).map LeafData.hash :=
  inStep.holds.lookup _ (leafIdx_lt ballot)

theorem absent_iff (ballot : Ballot) : (tree st.mt).lookup ((leafIdx ballot : Nat) : Fr) 0 = none ↔
    st.leavesMap.book (leafKey ballot) = none := by
  rw [inStep.lookup_eq, Option.map_eq_none_iff, book_eq_none_iff]
  rfl

end TallyLoop.InStep

theorem enterVote_ok (correct : lib.Correct H stateDepth tree) (isHash0 : H.hash [0] = some hash0)
    (inStep : st.InStep tree H choices) (few : ballot.choice.val ≤ choices)
    (valid : st.revotingOld ballot = ballot.revotingKeyOld)
    (done : enterVote H st ballot (leafIdx ballot) (st.choiceOld ballot) = .ok (proof, st')) :
    Recorded tree H choices st ballot proof st' ∧ Pushed st ballot st' := by
  obtain ⟨leaf, hashed, done⟩ := bind_ok_iff.1 done
  obtain ⟨⟨proof, mt', leafEmpty⟩, added, done⟩ := bind_ok_iff.1 done
  obtain ⟨counts, moved, done⟩ := bind_ok_iff.1 done
  cases done
  rw [poseidon_ok_iff] at hashed
  obtain ⟨binds, length, wasEmpty⟩ := addOrUpdate_ok correct (leafIdx_lt ballot) added
  obtain ⟨counts', moved', sameLength, counted⟩ := moveCount_spec (inStep.choiceOld_le ballot)
    (show ballot.choice.val ≤ st.tallyCounts.length by rwa [inStep.counts])
  cases moved.symm.trans moved'
  have found := (valid_iff isHash0 st ballot).2 valid
  refine ⟨
    { inStep :=
        { kept := inStep.kept.set (leafIdx_lt ballot) hashed few
          holds := inStep.holds.set (correct.shaped _).ordered (correct.shaped _).ordered (leafIdx_lt ballot)
            binds rfl
          counts := sameLength.trans inStep.counts }
      length
      shown := ?_
      occupied := ?_
      processed := ?_
      counted := fun i => by rw [if_pos found, ← choiceOld_eq, counted]
      grown := fun entry member => ?_ }, rfl, ?_⟩
  · -- A proof that changes the tree also shows what it held.
    rcases wasEmpty with ⟨absent, _, inserts⟩ | ⟨present, _, _, updates⟩
    · rw [show (tree st.mt).lookup (((leafKey ballot).val : Nat) : Fr) 0 = none from absent]
      exact inserts.verifies
    · have looked : (tree st.mt).lookup (((leafKey ballot).val : Nat) : Fr) 0 = some proof.opening.oldValue :=
        updates.verifies.lookup (correct.root st.mt)
      rw [looked]
      exact updates.verifies
  · intro stored
    rcases wasEmpty with ⟨absent, _, _⟩ | ⟨_, _, occupied, _⟩
    · exact absurd ((inStep.absent_iff ballot).1 absent) stored
    · exact occupied
  · intro leafNew isLeaf
    rw [hashed, Option.some.injEq] at isLeaf
    subst isLeaf
    rcases wasEmpty with ⟨absent, _, inserts⟩ | ⟨present, _, _, updates⟩
    · exact .inserted found ((inStep.absent_iff ballot).1 absent) inserts
    · exact .updated found (fun absent => present ((inStep.absent_iff ballot).2 absent)) updates
  · rcases Leaves.mem_set member with rfl | old
    · exact .inl rfl
    · exact .inr (List.mem_map_of_mem old)
  · rcases wasEmpty with ⟨absent, rfl, _⟩ | ⟨present, rfl, _⟩
    · rw [if_pos ((inStep.absent_iff ballot).1 absent)]
    · rw [if_neg fun absent => present ((inStep.absent_iff ballot).2 absent)]

theorem skipVote_ok (correct : lib.Correct H stateDepth tree) (isHash0 : H.hash [0] = some hash0)
    (inStep : st.InStep tree H choices) (invalid : st.revotingOld ballot ≠ ballot.revotingKeyOld) :
    ∃ proof st', skipVote st (leafIdx ballot) (st.leafOld ballot) = .ok (proof, st') ∧
      Recorded tree H choices st ballot proof st' ∧ Pushed st ballot st' := by
  obtain ⟨proof, generated, length, shown⟩ :=
    correct.generateCircomVerifierProof_ok st.mt _ (leafIdx_lt ballot)
  have mismatch : st.leavesMap.book.revotingKey H (leafKey ballot) ≠ some ballot.revotingKeyOld :=
    fun found => invalid ((valid_iff isHash0 st ballot).1 found)
  refine ⟨proof.withIsOld0 (proof.fnc = 1 ∧ proof.oldValue = 0), _,
    bind_ok_iff.2 ⟨proof, generated, rfl⟩,
    { inStep := ⟨inStep.kept, inStep.holds, inStep.counts⟩
      length := length
      shown := ?_
      occupied := ?_
      processed := fun _ _ => .skipped mismatch
      counted := fun i => by rw [if_neg mismatch, tallyChoice, zero_mul, add_zero]
      grown := fun entry member => .inr (List.mem_map_of_mem member) }, rfl, ?_⟩
  rotate_right
  · have same : (st.leafOld ballot).isSome = true ↔ ¬st.leavesMap.book (leafKey ballot) = none := by
      rw [book_eq_none_iff, ← ne_eq, ← Option.isSome_iff_ne_none]
      rfl
    by_cases absent : st.leavesMap.book (leafKey ballot) = none
    · rw [if_pos absent, if_neg fun some => same.1 some absent]
    · rw [if_neg absent, if_pos (same.2 absent)]
  · -- `isOld0` as the code sets it tells the empty slot from another index's leaf.
    change Opening.Verifies H _ (lib.root st.mt) ((leafIdx ballot : Nat) : Fr)
      ((tree st.mt).lookup ((leafIdx ballot : Nat) : Fr) 0)
    generalize (tree st.mt).lookup ((leafIdx ballot : Nat) : Fr) 0 = looked at shown ⊢
    cases looked with
    | some value =>
        obtain ⟨fnc, member⟩ := shown
        simpa [fnc] using member
    | none =>
        obtain ⟨fnc, ⟨zero, free⟩ | ⟨member, taken⟩⟩ := shown
        · simpa [fnc, zero] using free
        · have nonzero := inStep.holds.ne_zero inStep.kept (correct.shaped _).ordered member
          simpa [fnc, show proof.oldValue ≠ 0 from nonzero] using taken
  · intro stored
    have present : (tree st.mt).lookup ((leafIdx ballot : Nat) : Fr) 0 ≠ none :=
      fun absent => stored ((inStep.absent_iff ballot).1 absent)
    obtain ⟨value, found⟩ := Option.ne_none_iff_exists'.1 present
    rw [found] at shown
    have member : proof.fnc = 0 := shown.1
    simp [CircomProcessorProof.opening, CircomVerifierProof.withIsOld0, member]

theorem recordVote_ok (correct : lib.Correct H stateDepth tree) (isHash0 : H.hash [0] = some hash0)
    (inStep : st.InStep tree H choices) (few : ballot.choice.val ≤ choices)
    (done : recordVote H st ballot = .ok (proof, st')) :
    Recorded tree H choices st ballot proof st' ∧ Pushed st ballot st' := by
  unfold recordVote at done
  split_ifs at done with valid
  · exact enterVote_ok correct isHash0 inStep few valid done
  · obtain ⟨proof', st'', skipped, recorded⟩ := skipVote_ok correct isHash0 inStep valid
    rw [skipped] at done
    cases done
    exact recorded

def Rejected (H : IdealHash Fr) (indices : List Nat) (idx : Nat) (e : JsError) : Prop :=
  (∃ inputs, e = .poseidon inputs ∧ H.hash inputs = none) ∨
    e = .reachedMaxLevel ∧ ∃ other ∈ indices, other ≠ idx ∧
      other % 2 ^ (stateDepth - 1) = idx % 2 ^ (stateDepth - 1)

theorem Holds.rejected {t : SparseTree Fr} {leaves : Leaves} (holds : Holds t leaves) (ordered : t.Ordered 0)
    (refused : Refused H stateDepth t idx e) : Rejected H (leaves.entries.map Prod.fst) idx e := by
  rcases refused with undefined | ⟨full, entry, member, other, same⟩
  · exact .inl undefined
  · obtain ⟨data, recorded, _⟩ := holds.mem ordered member
    exact .inr ⟨full, _, List.mem_map_of_mem recorded, other, same⟩

theorem recordVote_error (correct : lib.Correct H stateDepth tree) (isHash0 : H.hash [0] = some hash0)
    (inStep : st.InStep tree H choices) (few : ballot.choice.val ≤ choices)
    (failed : recordVote H st ballot = .error e) :
    Rejected H (st.leavesMap.entries.map Prod.fst) (leafIdx ballot) e := by
  unfold recordVote at failed
  split_ifs at failed with valid
  · rcases bind_error_iff.1 failed with undefined | ⟨leaf, _, failed⟩
    · obtain ⟨none, rfl⟩ := poseidon_error_iff.1 undefined
      exact .inl ⟨_, rfl, none⟩
    · rcases bind_error_iff.1 failed with refused | ⟨_, _, failed⟩
      · exact inStep.holds.rejected (correct.shaped _).ordered
          (addOrUpdate_error correct (leafIdx_lt ballot) refused)
      · -- The counts have room for every choice on record and for the new one.
        obtain ⟨_, moved, _⟩ := moveCount_spec (inStep.choiceOld_le ballot)
          (show ballot.choice.val ≤ st.tallyCounts.length by rwa [inStep.counts])
        rcases bind_error_iff.1 failed with stuck | ⟨_, _, nothing⟩
        · rw [moved] at stuck
          cases stuck
        · cases nothing
  · obtain ⟨_, _, skipped, _⟩ := skipVote_ok correct isHash0 inStep valid
    rw [skipped] at failed
    cases failed

end record

section turn

variable {st st' : TallyLoop lib} {v : VoteOut} {vote : ReadVote} {ballot : Ballot}
  {choices : Nat} {e : JsError}

/-- The browser's cipher opens a message to the limbs that the circuit decrypts. -/
structure Cipher.Agrees (cipher : Cipher) (G : Gadgets H) : Prop where
  ecdh : ∀ sk ephPk, cipher.mulPointEscalar ephPk sk = G.ecdh sk ephPk
  poseidonDecrypt : ∀ key nonce ciphertext plain,
    cipher.poseidonDecrypt (List.ofFn ciphertext) key nonce limbs = .ok plain ↔
      ∃ decrypted, G.poseidonDecrypt key nonce ciphertext decrypted ∧
        plain = [decrypted 0, decrypted 1, decrypted 2, decrypted 3]

/-- The row shows a message that the tallier decrypts to a ballot for one of the choices, or for none. -/
structure Opened (cipher : Cipher) (keypair : Keypair) (choices : Nat) (v : VoteOut) (vote : ReadVote)
    (ballot : Ballot) : Prop where
  read : readVote v = some vote
  words : vote.ctWords.length = ctLen
  decrypts : cipher.poseidonDecrypt vote.ciphertext (cipher.mulPointEscalar vote.ephPk keypair.sk) vote.nonce
    limbs = .ok [ballot.nu, ballot.choice, ballot.revotingKeyOld, ballot.revotingKeyNew]
  choice : ballot.choice.val ≤ choices

def ReadVote.message (vote : ReadVote) : Message where
  ephPk := vote.ephPk
  nonce := vote.nonce
  ciphertext := fun i => (vote.ctWords[i.val]?.getD 0 : Nat)

theorem ReadVote.ciphertext_message (words : vote.ctWords.length = ctLen) :
    List.ofFn vote.message.ciphertext = vote.ciphertext := by
  refine List.ext_getElem (by rw [List.length_ofFn, ciphertext, List.length_map, words]) fun i
    low inside => ?_
  have below : i < vote.ctWords.length := by rwa [ciphertext, List.length_map] at inside
  simp only [List.getElem_ofFn, message, ciphertext, List.getElem_map, List.getElem?_eq_getElem below,
    Option.getD_some]

theorem ReadVote.preimage_message (words : vote.ctWords.length = ctLen) :
    vote.message.preimage = vote.preimage := by
  rw [Message.preimage, ciphertext_message words]
  rfl

def rowOf (st : TallyLoop lib) (vote : ReadVote) (ballot : Ballot) (proof : CircomProcessorProof) :
    TallyRow where
  ephPk := vote.ephPk
  nonce := vote.nonce
  ciphertext := vote.ciphertext
  siblings := proof.siblings
  choiceOld := st.choiceOld ballot
  revotingKeyOld := st.revotingOld ballot
  noAux := if proof.isOld0 then 1 else 0
  auxKey := proof.oldKey
  auxValue := proof.oldValue
  wasLeafEmpty := if st.leavesMap.book (leafKey ballot) = none then 1 else 0

/-- A turn of the loop records the ballot, pushes a row on the arrays and absorbs the message. -/
structure Turn (tree : lib.Tree → SparseTree Fr) (H : IdealHash Fr) (choices : Nat) (st : TallyLoop lib)
    (vote : ReadVote) (ballot : Ballot) (proof : CircomProcessorProof) (msgHash : Fr) (st' : TallyLoop lib) :
    Prop where
  recorded : Recorded tree H choices st ballot proof st'
  hashed : H.hash vote.preimage = some msgHash
  chained : H.hash [st.runningMsgHash, msgHash] = some st'.runningMsgHash
  arrays : ∀ rows, st.arrays = .ofRows rows → st'.arrays = .ofRows (rows ++ [rowOf st vote ballot proof])

theorem tallyVote_ok (correct : lib.Correct H stateDepth tree) (isHash0 : H.hash [0] = some hash0)
    (inStep : st.InStep tree H choices) (opened : Opened cipher keypair choices v vote ballot)
    (done : tallyVote H cipher keypair st v = .ok st') :
    ∃ proof msgHash, Turn tree H choices st vote ballot proof msgHash st' := by
  obtain ⟨_, read, done⟩ := bind_ok_iff.1 done
  rw [readRow, opened.read] at read
  cases read
  obtain ⟨_, decrypted, done⟩ := bind_ok_iff.1 done
  rw [opened.decrypts] at decrypted
  cases decrypted
  obtain ⟨_, destructured, done⟩ := bind_ok_iff.1 done
  cases destructured
  obtain ⟨⟨proof, mid⟩, recording, done⟩ := bind_ok_iff.1 done
  obtain ⟨msgHash, hashed, done⟩ := bind_ok_iff.1 done
  obtain ⟨next, chained, done⟩ := bind_ok_iff.1 done
  cases done
  obtain ⟨recorded, digest, arrays⟩ := recordVote_ok correct isHash0 inStep opened.choice recording
  rw [poseidon_ok_iff] at hashed chained
  rw [digest] at chained
  refine ⟨proof, msgHash,
    { recorded := ⟨⟨recorded.inStep.kept, recorded.inStep.holds, recorded.inStep.counts⟩, recorded.length,
        recorded.shown, recorded.occupied, recorded.processed, recorded.counted, recorded.grown⟩
      hashed, chained
      arrays := fun rows aligned => ?_ }⟩
  simp only [arrays, TallyLoop.pushWasLeafEmpty, aligned, TallyArrays.ofRows, List.map_append, List.map_cons,
    List.map_nil, rowOf]

theorem tallyVote_error (correct : lib.Correct H stateDepth tree) (isHash0 : H.hash [0] = some hash0)
    (inStep : st.InStep tree H choices) (opened : Opened cipher keypair choices v vote ballot)
    (failed : tallyVote H cipher keypair st v = .error e) :
    Rejected H (st.leavesMap.entries.map Prod.fst) (leafIdx ballot) e := by
  have undefined {inputs : List Fr} (failed : poseidon H inputs = .error e) :
      Rejected H (st.leavesMap.entries.map Prod.fst) (leafIdx ballot) e := by
    obtain ⟨none, rfl⟩ := poseidon_error_iff.1 failed
    exact .inl ⟨_, rfl, none⟩
  rcases bind_error_iff.1 failed with unread | ⟨_, read, failed⟩
  · rw [readRow, opened.read] at unread
    cases unread
  rw [readRow, opened.read] at read
  cases read
  rcases bind_error_iff.1 failed with undecrypted | ⟨_, decrypted, failed⟩
  · rw [opened.decrypts] at undecrypted
    cases undecrypted
  rw [opened.decrypts] at decrypted
  cases decrypted
  rcases bind_error_iff.1 failed with short | ⟨_, destructured, failed⟩
  · cases short
  cases destructured
  rcases bind_error_iff.1 failed with refused | ⟨_, _, failed⟩
  · exact recordVote_error correct isHash0 inStep opened.choice refused
  rcases bind_error_iff.1 failed with unhashed | ⟨_, _, failed⟩
  · exact undefined unhashed
  rcases bind_error_iff.1 failed with unchained | ⟨_, _, nothing⟩
  · exact undefined unchained
  · cases nothing

end turn

section entry

variable {st st' : TallyLoop lib} {v : VoteOut} {vote : ReadVote} {ballot : Ballot} {choices : Nat}
  {proof : CircomProcessorProof} {msgHash leafOld leafNew : Fr}

structure Enters (G : Gadgets H) (keypair : Keypair) (row : TallyRow) (acc : TallyAcc maxChoices)
    (w : TallySingle stateDepth maxChoices) (acc' : TallyAcc maxChoices) : Prop where
  step : TallySingle.Step G acc w acc'
  on : w.enabled = 1
  sk : w.tallierSk = keypair.sk
  hints : w.Hints
  row : w.row = row

theorem Cipher.Agrees.ballot_eq (agrees : cipher.Agrees G)
    (opened : Opened cipher keypair choices v vote ballot)
    {w : TallySingle stateDepth maxChoices} (constraints : w.Constraints G) (sk : w.tallierSk = keypair.sk)
    (message : w.message = vote.message) : w.ballot = ballot := by
  have words := ReadVote.ciphertext_message opened.words
  simp only [TallySingle.message, ReadVote.message, Message.mk.injEq] at message
  obtain ⟨ephPk, nonce, ciphertext⟩ := message
  have plain := (agrees.poseidonDecrypt _ _ _ _).2 ⟨_, constraints.decrypt, rfl⟩
  rw [sk, ephPk, nonce, ciphertext, ← agrees.ecdh] at plain
  rw [show (fun i : Fin ctLen => ((vote.ctWords[i.val]?.getD 0 : Nat) : Fr)) =
    vote.message.ciphertext from rfl,
    words, opened.decrypts, Except.ok.injEq] at plain
  simp only [List.cons.injEq, and_true] at plain
  rcases ballot with ⟨⟩
  simp only [TallySingle.ballot, Ballot.ofDecrypted, Ballot.mk.injEq]
  exact ⟨plain.1.symm, plain.2.1.symm, plain.2.2.1.symm, plain.2.2.2.symm⟩

theorem Turn.exists_entry (complete : G.Complete) (agrees : cipher.Agrees G)
    (isHash0 : H.hash [0] = some hash0) (inStep : st.InStep tree H choices)
    (opened : Opened cipher keypair choices v vote ballot)
    (turn : Turn tree H choices st vote ballot proof msgHash st')
    (isLeafOld : H.hash [st.choiceOld ballot, st.revotingOld ballot] = some leafOld)
    (isLeaf : H.hash [ballot.choice, ballot.revotingKeyNew] = some leafNew) :
    ∃ w, Enters G keypair (rowOf st vote ballot proof) st.acc w st'.acc ∧ w.msgHash = msgHash := by
  have decrypts := opened.decrypts
  rw [← ReadVote.ciphertext_message opened.words, agrees.ecdh, agrees.poseidonDecrypt] at decrypts
  obtain ⟨decrypted, decrypts, plain⟩ := decrypts
  have isBallot : Ballot.ofDecrypted decrypted = ballot := by
    rcases ballot with ⟨⟩
    simp only [List.cons.injEq, and_true] at plain
    simp only [Ballot.ofDecrypted, Ballot.mk.injEq]
    exact ⟨plain.1.symm, plain.2.1.symm, plain.2.2.1.symm, plain.2.2.2.symm⟩
  subst isBallot
  obtain ⟨siblings, isSiblings⟩ := exists_ofFn proof.siblings turn.recorded.length
  rw [choiceOld_eq, revotingOld_eq] at isLeafOld
  have shown := turn.recorded.shown
  rw [(inStep.holds.tracks inStep.kept).lookup_eq isLeafOld] at shown
  refine ⟨.ofRecord st.acc st'.acc keypair.sk vote.message msgHash decrypted siblings proof.opening
    (st.leavesMap.book (leafKey (Ballot.ofDecrypted decrypted)))
      (leafKey (Ballot.ofDecrypted decrypted)) hash0
    leafOld leafNew,
    { step := ⟨TallySingle.ofRecord_constraints complete isSiblings turn.recorded.occupied decrypts ?_
        turn.chained isHash0 isLeafOld isLeaf shown (turn.recorded.processed leafNew isLeaf) turn.recorded.counted, .inr rfl, rfl, rfl⟩
      on := rfl
      sk := rfl
      hints := TallySingle.ofRecord_hints
      row := ?_ }, rfl⟩
  · rw [ReadVote.preimage_message opened.words]
    exact turn.hashed
  · rw [rowOf, choiceOld_eq, revotingOld_eq, ← ReadVote.ciphertext_message opened.words, ← isSiblings]
    rfl

/-- However the circuit takes the turn, it comes out where the loop does. -/
theorem Turn.unique (complete : G.Complete) (agrees : cipher.Agrees G)
    (isHash0 : H.hash [0] = some hash0) (inStep : st.InStep tree H choices)
    (opened : Opened cipher keypair choices v vote ballot)
    (turn : Turn tree H choices st vote ballot proof msgHash st') {acc' : TallyAcc maxChoices}
    {w : TallySingle stateDepth maxChoices}
    (enters : Enters G keypair (rowOf st vote ballot proof) st.acc w acc') : acc' = st'.acc := by
  obtain ⟨⟨constraints, _, old, rfl⟩, on, sk, hints, row⟩ := enters
  have message {w : TallySingle stateDepth maxChoices} (row : w.row = rowOf st vote ballot proof) :
      w.message = vote.message := by
    simp only [TallySingle.row, rowOf, TallyRow.mk.injEq] at row
    rw [TallySingle.message, ReadVote.message, row.1, row.2.1]
    simp only [Message.mk.injEq, true_and]
    apply List.ofFn_injective
    rw [row.2.2.1, ← ReadVote.ciphertext_message opened.words]
    rfl
  have ballot_eq := agrees.ballot_eq opened constraints sk (message row)
  have isLeaf := constraints.leafNew
  rw [ballot_eq] at isLeaf
  have inputs := row
  simp only [TallySingle.row, rowOf, TallyRow.mk.injEq] at inputs
  obtain ⟨_, _, _, _, choiceOld, revotingKeyOld, noAux, _, _, wasLeafEmpty⟩ := inputs
  have isLeafOld := constraints.leafOld
  rw [choiceOld, revotingKeyOld] at isLeafOld
  obtain ⟨own, ⟨⟨ownConstraints, _, ownOld, ownNew⟩, ownOn, ownSk, ownHints, ownRow⟩, _⟩ :=
    turn.exists_entry complete agrees isHash0 inStep opened isLeafOld isLeaf
  have controls : w.BooleanControls := by
    rw [TallySingle.BooleanControls, noAux, wasLeafEmpty]
    refine ⟨boolean_of_bool _, ?_⟩
    split_ifs
    · exact .inr rfl
    · exact .inl rfl
  have ballots : w.ballot = own.ballot :=
    ballot_eq.trans (agrees.ballot_eq opened ownConstraints ownSk (message ownRow)).symm
  rw [← ownNew]
  exact constraints.unique ownConstraints on ownOn controls (row.trans ownRow.symm) (old.trans ownOld.symm)
    ballots (by rw [hints.nuLo, ownHints.nuLo, ballots])

end entry

end Mootvote.Frontend
