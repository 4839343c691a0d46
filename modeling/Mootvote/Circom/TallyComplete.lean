import Mootvote.Circom.TallyReference
import Mootvote.Shared.SparseOpening
import Mootvote.Shared.SparsePath

set_option autoImplicit false

/-!
# Every list of messages can be tallied

A tallier who decrypts the messages proves their tally with one batch for each message. The split
of a nullifier is a hint, so the tallier may give each nullifier a leaf of its own.
-/

namespace Mootvote

open Shared SparseMerkle

variable {H : IdealHash Fr} {depth maxChoices maxBatch : Nat}

def Gadgets.Decrypts (G : Gadgets H) (sk : Fr) (m : Message) (ballot : Ballot) : Prop :=
  ∃ decrypted, G.poseidonDecrypt (G.ecdh sk m.ephPk) m.nonce m.ciphertext decrypted ∧
    Ballot.ofDecrypted decrypted = ballot

section counts

variable {K : Type} [DecidableEq K] [Fintype K]

theorem Book.count_update (book : Book K) (k : K) (entry : Fr × Fr) (choice : Fr) :
    Book.count (Function.update book k (some entry)) choice +
        (if (book k).map Prod.fst = some choice then 1 else 0) =
      book.count choice + if entry.1 = choice then 1 else 0 := by
  have rest : ∀ other ∈ Finset.univ.erase k,
      (if (Function.update book k (some entry) other).map Prod.fst = some choice then 1 else 0) =
        if (book other).map Prod.fst = some choice then 1 else 0 := by
    intro other member
    rw [Function.update_of_ne (Finset.ne_of_mem_erase member)]
  rw [Book.count, Book.count, Finset.card_filter, Finset.card_filter,
    ← Finset.add_sum_erase _ _ (Finset.mem_univ k),
    ← Finset.add_sum_erase Finset.univ (fun k => if (book k).map Prod.fst = some choice then 1 else 0)
      (Finset.mem_univ k), Finset.sum_congr rfl rest, Function.update_self]
  simp only [Option.map_some, Option.some.injEq]
  omega

def Book.counts (maxChoices : Nat) (book : Book K) : Fin maxChoices → Fr :=
  fun k => book.count (k.val + 1 : Nat)

theorem Book.counts_update (few : maxChoices < scalarModulus) (book : Book K) (k : K) (entry : Fr × Fr)
    (t : Fin maxChoices) :
    Book.counts maxChoices (Function.update book k (some entry)) t =
      tallyChoice 1 (((book k).map Prod.fst).getD 0) entry.1 (t.val + 1 : Nat)
      (book.counts maxChoices t) := by
  have nonzero := TallySingle.choiceNumber_ne_zero few t
  have counted := congrArg (Nat.cast (R := Fr)) (book.count_update k entry (t.val + 1 : Nat))
  rw [tallyChoice, isEqual, isEqual, one_mul, ← add_sub_assoc, eq_sub_iff_add_eq, counts, counts]
  cases onRecord : book k with
  | none =>
      rw [Option.map_none, Option.getD_none, if_neg nonzero.symm]
      simp only [onRecord, Option.map_none, reduceCtorEq, if_false, Nat.cast_add, Nat.cast_ite] at counted
      simpa using counted
  | some old =>
      simp only [onRecord, Option.map_some, Option.some.injEq, Nat.cast_add, Nat.cast_ite] at counted
      simpa using counted

end counts

section tree

variable {book : Book (Fin (2 ^ depth))} {t t' : SparseTree Fr} {key : Fin (2 ^ depth)}
  {ballot : Ballot} {leafNew root : Fr}

/-- The tree holds the book, and its keys are small enough for every path to leave the last level free. -/
structure Shallow (H : IdealHash Fr) (book : Book (Fin (2 ^ depth))) (t : SparseTree Fr) : Prop where
  tracks : Tracks H book t
  shaped : t.Shaped depth
  keys : ∀ entry ∈ t.leaves, entry.1.val < 2 ^ (depth - 1)

theorem eq_of_agree {n : Nat} {a b : Fr} (left : a.val < 2 ^ n) (right : b.val < 2 ^ n)
    (agree : ∀ j < n, bit a j = bit b j) : a = b := by
  apply ZMod.val_injective
  apply Nat.eq_of_testBit_eq
  intro j
  by_cases inside : j < n
  · exact agree j inside
  · have high : 2 ^ n ≤ 2 ^ j := Nat.pow_le_pow_right (by omega) (by omega)
    rw [Nat.testBit_lt_two_pow (by omega), Nat.testBit_lt_two_pow (by omega)]

theorem Tracks.unique (tracks : Tracks H book t) (tracks' : Tracks H book t') (shaped : t.Shaped depth)
    (shaped' : t'.Shaped depth) : t = t' := by
  refine shaped.eq_of_lookup shaped' fun key => ?_
  by_cases inside : key.val < 2 ^ depth
  · have left := tracks.entries ⟨key.val, inside⟩
    have right := tracks'.entries ⟨key.val, inside⟩
    rw [ZMod.natCast_zmod_val] at left right
    generalize book ⟨key.val, inside⟩ = entry at left right
    generalize t.lookup key 0 = looked at left ⊢
    generalize t'.lookup key 0 = looked' at right ⊢
    cases left with
    | none =>
        cases right
        rfl
    | some hashed =>
        cases right with
        | some hashed' => rw [← hashed, hashed']
  · have outside {t : SparseTree Fr} (tracks : Tracks H book t)
      (shaped : t.Shaped depth) : t.lookup key 0 = none := by
      rw [SparseTree.lookup_eq_none_iff shaped.ordered]
      exact fun value member => inside (tracks.keys _ member)
    rw [outside tracks shaped, outside tracks' shaped']

theorem Shallow.short (shallow : Shallow H book t) (positive : 0 < depth) (key : Fr) :
    (t.sides key 0).length < depth := by
  rw [SparseTree.sides_lt_iff shallow.shaped positive]
  intro a inA b inB agreeA agreeB
  obtain ⟨entry, member, rfl⟩ := List.mem_map.1 inA
  obtain ⟨entry', member', rfl⟩ := List.mem_map.1 inB
  refine eq_of_agree (shallow.keys _ member) (shallow.keys _ member') fun j inside => ?_
  have same := (agreeA j inside).symm.trans (agreeB j inside)
  rwa [Nat.zero_add] at same

theorem Tracks.lookup_eq_none_iff (tracks : Tracks H book t) :
    t.lookup ((key.val : Nat) : Fr) 0 = none ↔ book key = none := by
  have related := tracks.entries key
  generalize t.lookup ((key.val : Nat) : Fr) 0 = looked at related ⊢
  generalize book key = stored at related ⊢
  cases related <;> simp

theorem Tracks.parts_from_leaves (tracks : Tracks H book t) (small : depth < 254) (ordered : t.Ordered 0)
    (absent : book key = none) :
    ∀ entry ∈ t.leaves, ∃ j < depth, bit ((key.val : Nat) : Fr) (0 + j) ≠ bit entry.1 (0 + j) := by
  intro entry member
  by_contra same
  push Not at same
  have equal : ((key.val : Nat) : Fr) = entry.1 := by
    refine eq_of_agree ?_ (tracks.keys entry member) fun j inside => ?_
    · rw [val_cast_fin small]
      exact key.isLt
    · have agreed := same j inside
      rwa [Nat.zero_add] at agreed
  rw [← tracks.lookup_eq_none_iff, SparseTree.lookup_eq_none_iff ordered] at absent
  exact absent entry.2 (by rwa [equal])

/-- What a ballot does to the tree that holds the book. -/
inductive Entered (H : IdealHash Fr) (book : Book (Fin (2 ^ depth))) (key : Fin (2 ^ depth))
    (ballot : Ballot) (leafNew : Fr) (t : SparseTree Fr) : SparseTree Fr → Prop
  | skipped (mismatch : book.revotingKey H key ≠ some ballot.revotingKeyOld) :
      Entered H book key ballot leafNew t t
  | inserted {t' : SparseTree Fr} (found : book.revotingKey H key = some ballot.revotingKeyOld)
      (absent : book key = none) (done : t.add ((key.val : Nat) : Fr) leafNew depth 0 = some t') :
      Entered H book key ballot leafNew t t'
  | updated {t' : SparseTree Fr} {entry : Fr × Fr} {old : Fr}
      (found : book.revotingKey H key = some ballot.revotingKeyOld)
      (present : book key = some entry) (done : t.set ((key.val : Nat) : Fr) leafNew 0 = some (old, t')) :
      Entered H book key ballot leafNew t t'

theorem Shallow.exists_entered (shallow : Shallow H book t) (small : depth < 254) (ballot : Ballot)
    (key : Fin (2 ^ depth)) (leaf : Fr) : ∃ t', Entered H book key ballot leaf t t' := by
  by_cases found : book.revotingKey H key = some ballot.revotingKeyOld
  · cases stored : book key with
    | none =>
        have ordered := shallow.shaped.ordered
        obtain ⟨t', done⟩ := Option.isSome_iff_exists.1
          (SparseTree.add_isSome leaf shallow.shaped.height
            (shallow.tracks.parts_from_leaves small ordered stored) ordered)
        exact ⟨t', .inserted found stored done⟩
    | some entry =>
        have present : t.lookup ((key.val : Nat) : Fr) 0 ≠ none := by
          rw [Ne, shallow.tracks.lookup_eq_none_iff, stored]
          exact Option.some_ne_none entry
        have replaced : t.set ((key.val : Nat) : Fr) leaf 0 ≠ none :=
          fun none => present (SparseTree.set_eq_none_iff.1 none)
        obtain ⟨⟨old, t'⟩, done⟩ := Option.ne_none_iff_exists'.1 replaced
        exact ⟨t', .updated found stored done⟩
  · exact ⟨t, .skipped found⟩

theorem Shallow.entered {key : Fr → Fin (2 ^ depth)} (shallow : Shallow H book t) (small : depth < 254)
    (hashed : H.hash [ballot.choice, ballot.revotingKeyNew] = some leafNew)
    (low : (key ballot.nu).val < 2 ^ (depth - 1))
    (entered : Entered H book (key ballot.nu) ballot leafNew t t') :
    Shallow H (book.apply H key ballot) t' := by
  have lowKey : (((key ballot.nu).val : Nat) : Fr).val < 2 ^ (depth - 1) := by rwa [val_cast_fin small]
  have inside : (((key ballot.nu).val : Nat) : Fr).val < 2 ^ depth := by
    rw [val_cast_fin small]
    exact (key ballot.nu).isLt
  unfold Book.apply
  cases entered with
  | skipped mismatch =>
      rw [if_neg mismatch]
      exact shallow
  | inserted found _ done =>
      rw [if_pos found]
      -- Every leaf is the new one or was there before.
      have leaves : ∀ entry ∈ t'.leaves, entry.1 = (((key ballot.nu).val : Nat) : Fr) ∨ entry ∈ t.leaves := by
        intro entry member
        rcases List.mem_cons.1 ((SparseTree.add_leaves done).mem_iff.1 member) with rfl | old
        · exact .inl rfl
        · exact .inr old
      refine ⟨shallow.tracks.store small hashed (SparseTree.lookup_add shallow.shaped.ordered done) ?_,
        shallow.shaped.add done, ?_⟩ <;> intro entry member <;> rcases leaves entry member with own | old
      · rwa [own]
      · exact shallow.tracks.keys entry old
      · rwa [own]
      · exact shallow.keys entry old
  | updated found _ done =>
      rw [if_pos found]
      have leaves : ∀ entry ∈ t'.leaves, ∃ entry' ∈ t.leaves, entry'.1 = entry.1 := fun entry member =>
        List.mem_map.1 ((SparseTree.set_keys done).mem_iff.1 (List.mem_map_of_mem member))
      refine ⟨shallow.tracks.store small hashed (SparseTree.lookup_set shallow.shaped.ordered done) ?_,
        shallow.shaped.set done, ?_⟩ <;>
        intro entry member <;> obtain ⟨entry', old, same⟩ := leaves entry member <;> rw [← same]
      · exact shallow.tracks.keys entry' old
      · exact shallow.keys entry' old

end tree

section entry

variable {G : Gadgets H} {book : Book (Fin (2 ^ depth))} {t t' : SparseTree Fr} {key : Fr → Fin (2 ^ depth)}
  {ballot : Ballot} {hash0 leafOld leafNew : Fr}

theorem Book.revotingKey_eq {K : Type} (book : Book K) (isHash0 : H.hash [0] = some hash0) (k : K) :
    book.revotingKey H k = some (((book k).map Prod.snd).getD hash0) := by
  unfold Book.revotingKey
  cases book k with
  | none => exact isHash0
  | some entry => rfl

theorem Tracks.exists_leafOld {empty : Fr} (tracks : Tracks H book t)
    (isEmpty : H.hash [0, hash0] = some empty) (k : Fin (2 ^ depth)) :
    ∃ leafOld,
      H.hash [((book k).map Prod.fst).getD 0, ((book k).map Prod.snd).getD hash0] = some leafOld ∧
      t.lookup ((k.val : Nat) : Fr) 0 = if book k = none then none else some leafOld := by
  have related := tracks.entries k
  generalize t.lookup ((k.val : Nat) : Fr) 0 = looked at related ⊢
  cases stored : book k with
  | none =>
      rw [stored] at related
      cases related
      exact ⟨empty, isEmpty, rfl⟩
  | some entry =>
      rw [stored] at related
      cases related with
      | some hashed => exact ⟨_, hashed, rfl⟩

def TallySingle.ofRecord (acc acc' : TallyAcc maxChoices) (sk : Fr) (m : Message) (msgHash : Fr)
    (decrypted : Fin pad → Fr) (siblings : Fin depth → Fr) (opening : Opening Fr)
    (stored : Option (Fr × Fr)) (key : Fin (2 ^ depth)) (hash0 leafOld leafNew : Fr) : TallySingle depth maxChoices where
  enabled := 1
  rootOld := acc.root
  cumulativeMsgHashOld := acc.cumulativeMsgHash
  tallyOld := acc.tally
  tallierSk := sk
  ephPk := m.ephPk
  nonce := m.nonce
  ciphertext := m.ciphertext
  siblings := siblings
  choiceOld := (stored.map Prod.fst).getD 0
  revotingKeyOld := (stored.map Prod.snd).getD hash0
  noAux := if opening.isOld0 then 1 else 0
  auxKey := opening.oldKey
  auxValue := opening.oldValue
  wasLeafEmpty := if stored = none then 1 else 0
  rootNew := acc'.root
  cumulativeMsgHashNew := acc'.cumulativeMsgHash
  tallyNew := acc'.tally
  msgHash := msgHash
  decrypted := decrypted
  leafOld := leafOld
  leafNew := leafNew
  nuLo := (key.val : Nat)
  nuHi := (decrypted 0 - (key.val : Nat)) * ((2 ^ depth : Nat) : Fr)⁻¹
  hash0 := hash0
  cumulativeMsgHash := acc'.cumulativeMsgHash

theorem split_two_pow (depth : Nat) (x lo : Fr) :
    x = lo + (x - lo) * ((2 ^ depth : Nat) : Fr)⁻¹ * 2 ^ depth := by
  have coprime : Nat.Coprime (2 ^ depth) scalarModulus := Nat.Coprime.pow_left depth (by decide)
  have inverse := ZMod.coe_mul_inv_eq_one (2 ^ depth) coprime
  rw [Nat.cast_pow, Nat.cast_ofNat] at inverse ⊢
  rw [mul_assoc, mul_comm _ (2 ^ depth : Fr), inverse, mul_one, add_sub_cancel]

theorem opening_of_signals (opening : Opening Fr) :
    openingOf opening.siblings opening.oldKey opening.oldValue
    (if opening.isOld0 then 1 else 0) = opening := by
  rcases opening with ⟨siblings, isOld0, oldKey, oldValue⟩
  cases isOld0 <;> rfl

theorem exists_ofFn {A : Type} {n : Nat} (xs : List A) (length : xs.length = n) :
    ∃ f : Fin n → A, List.ofFn f = xs := by
  subst length
  exact ⟨xs.get, List.ofFn_get xs⟩

theorem boolean_of_bool (b : Bool) : Boolean (if b then 1 else 0) := by
  cases b
  · exact .inl rfl
  · exact .inr rfl

section constraints

variable {acc acc' : TallyAcc maxChoices} {sk msgHash : Fr} {m : Message} {decrypted : Fin pad → Fr}
  {siblings : Fin depth → Fr} {opening : Opening Fr} {k : Fin (2 ^ depth)}
    {stored : Option (Fr × Fr)} {root : Fr}

theorem TallySingle.ofRecord_isVoteValid (isHash0 : H.hash [0] = some hash0) :
    (ofRecord acc acc' sk m msgHash decrypted siblings opening (book k) k hash0 leafOld leafNew).isVoteValid =
      if book.revotingKey H k = some (Ballot.ofDecrypted decrypted).revotingKeyOld then 1 else 0 := by
  rw [book.revotingKey_eq isHash0, isVoteValid, revotingKeyMatches, isEqual]
  simp only [ofRecord, ballot, one_mul, Option.some.injEq, eq_comm]

theorem TallySingle.ofRecord_opening (isSiblings : List.ofFn siblings = opening.siblings) :
    (ofRecord acc acc' sk m msgHash decrypted siblings opening stored k hash0 leafOld
      leafNew).verifier.opening = opening ∧
      (ofRecord acc acc' sk m msgHash decrypted siblings opening stored k hash0 leafOld
        leafNew).processor.opening = opening := by
  have same := opening_of_signals opening
  rw [← isSiblings] at same
  exact ⟨same, same⟩

theorem TallySingle.ofRecord_verifier (complete : G.Complete)
    (isSiblings : List.ofFn siblings = opening.siblings) (occupied : stored ≠ none → opening.isOld0 = false)
    (shown : opening.Verifies H acc.root ((k.val : Nat) : Fr)
      (if stored = none then none else some leafOld)) :
    G.smtVerifier (ofRecord acc acc' sk m msgHash decrypted siblings opening stored k hash0 leafOld
      leafNew).verifier := by
  have isOpening : (ofRecord acc acc' sk m msgHash decrypted siblings opening stored k hash0 leafOld
    leafNew).verifier.opening =
      opening := (ofRecord_opening isSiblings).1
  by_cases absent : stored = none
  · refine complete.exclusion _ rfl (boolean_of_bool _) (if_pos absent) ?_
    rw [isOpening]
    rwa [if_pos absent] at shown
  · refine complete.inclusion _ rfl (if_neg (by simp [occupied absent])) (if_neg absent) ?_
    rw [isOpening]
    rwa [if_neg absent] at shown

inductive Processed (H : IdealHash Fr) (book : Book (Fin (2 ^ depth))) (k : Fin (2 ^ depth))
    (ballot : Ballot) (leafNew : Fr) (opening : Opening Fr) (root : Fr) : Fr → Prop
  | skipped (mismatch : book.revotingKey H k ≠ some ballot.revotingKeyOld) :
      Processed H book k ballot leafNew opening root root
  | inserted {root' : Fr} (found : book.revotingKey H k = some ballot.revotingKeyOld)
      (absent : book k = none) (shown : opening.Inserts H root ((k.val : Nat) : Fr) leafNew root') :
      Processed H book k ballot leafNew opening root root'
  | updated {root' : Fr} (found : book.revotingKey H k = some ballot.revotingKeyOld)
      (present : book k ≠ none) (shown : opening.Updates H root ((k.val : Nat) : Fr) leafNew root') :
      Processed H book k ballot leafNew opening root root'

theorem TallySingle.ofRecord_constraints (complete : G.Complete)
    (isSiblings : List.ofFn siblings = opening.siblings) (occupied : book k ≠ none → opening.isOld0 = false)
    (decrypts : G.poseidonDecrypt (G.ecdh sk m.ephPk) m.nonce m.ciphertext decrypted)
    (hashed : H.hash m.preimage = some msgHash)
    (chained : H.hash [acc.cumulativeMsgHash, msgHash] = some acc'.cumulativeMsgHash)
    (isHash0 : H.hash [0] = some hash0)
    (isLeafOld : H.hash [((book k).map Prod.fst).getD 0, ((book k).map Prod.snd).getD hash0] = some leafOld)
    (isLeaf : H.hash [(Ballot.ofDecrypted decrypted).choice, (Ballot.ofDecrypted decrypted).revotingKeyNew] =
      some leafNew)
    (shown : opening.Verifies H acc.root ((k.val : Nat) : Fr) (if book k = none then none else some leafOld))
    (processed : Processed H book k (Ballot.ofDecrypted decrypted) leafNew opening acc.root acc'.root)
    (counted : ∀ t, acc'.tally t = tallyChoice
      (if book.revotingKey H k = some (Ballot.ofDecrypted decrypted).revotingKeyOld then 1 else 0)
      (((book k).map Prod.fst).getD 0) (Ballot.ofDecrypted decrypted).choice (t.val + 1 : Nat) (acc.tally t)) :
    (ofRecord acc acc' sk m msgHash decrypted siblings opening (book k) k hash0 leafOld leafNew).Constraints
      G := by
  let w := ofRecord acc acc' sk m msgHash decrypted siblings opening (book k) k hash0 leafOld leafNew
  have valid : w.isVoteValid =
      if book.revotingKey H k = some (Ballot.ofDecrypted decrypted).revotingKeyOld then 1 else 0 :=
    ofRecord_isVoteValid isHash0
  have isOpening : w.processor.opening = opening := (ofRecord_opening isSiblings).2
  exact
    { msgHasher := hashed
      decrypt := decrypts
      leafOld := isLeafOld
      leafNew := isLeaf
      nuSplit := split_two_pow depth _ _
      emptyChoice := by
        show (if book k = none then 1 else 0) * ((book k).map Prod.fst).getD 0 = 0
        cases book k <;> simp
      hash0 := isHash0
      emptyKey := by
        show (if book k = none then 1 else 0) * (((book k).map Prod.snd).getD hash0 - hash0) = 0
        cases book k <;> simp
      verifier := ofRecord_verifier complete isSiblings occupied shown
      processor := by
        -- One opening of the old tree serves all three modes of the processor.
        have mode : w.processor.fnc =
          (w.isVoteValid * (if book k = none then 1 else 0),
            w.isVoteValid * (1 - if book k = none then 1 else 0)) := rfl
        have roots : w.processor.oldRoot = acc.root ∧ w.processor.newRoot = acc'.root := ⟨rfl, rfl⟩
        show G.smtProcessor w.processor
        rw [valid] at mode
        generalize acc'.root = root' at processed roots
        cases processed with
        | skipped mismatch =>
            rw [if_neg mismatch, zero_mul, zero_mul] at mode
            exact complete.noOp _ mode (roots.2.trans roots.1.symm)
        | inserted found absent shown =>
            rw [if_pos found, if_pos absent, one_mul, one_mul, sub_self] at mode
            refine complete.insertion _ (boolean_of_bool _) mode ?_
            rw [isOpening, roots.1, roots.2]
            exact shown
        | updated found present shown =>
            rw [if_pos found, if_neg present, one_mul, one_mul, sub_zero] at mode
            refine complete.update _ (boolean_of_bool _) mode ?_
            rw [isOpening, roots.1, roots.2]
            exact shown
      tallyNew := by
        intro t
        show acc'.tally t = tallyChoice w.isVoteValid (((book k).map Prod.fst).getD 0)
          (Ballot.ofDecrypted decrypted).choice _ (acc.tally t)
        rw [valid]
        exact counted t
      cumulativeMsgHash := chained
      cumulativeMsgHashNew := by
        show acc'.cumulativeMsgHash =
          acc.cumulativeMsgHash + 1 * (acc'.cumulativeMsgHash - acc.cumulativeMsgHash)
        rw [one_mul, add_sub_cancel] }

end constraints

/-- Whoever decrypts a message can enter it. -/
theorem exists_entry {acc : TallyAcc maxChoices} {sk msgHash digest root empty : Fr} {m : Message}
    (complete : G.Complete) (positive : 0 < depth) (few : maxChoices < scalarModulus) (shallow : Shallow H book t)
    (committed : t.commit H = some acc.root) (counted : acc.tally = book.counts maxChoices)
    (opens : G.Decrypts sk m ballot) (hashed : H.hash m.preimage = some msgHash)
    (chained : H.hash [acc.cumulativeMsgHash, msgHash] = some digest)
    (isHash0 : H.hash [0] = some hash0) (isEmpty : H.hash [0, hash0] = some empty)
    (isLeaf : H.hash [ballot.choice, ballot.revotingKeyNew] = some leafNew)
    (entered : Entered H book (key ballot.nu) ballot leafNew t t') (committed' : t'.commit H = some root) :
    ∃ w : TallySingle depth maxChoices, w.Constraints G ∧ w.enabled = 1 ∧ w.tallierSk = sk ∧
      w.message = m ∧ w.accOld = acc ∧
      w.accNew =
        { root, cumulativeMsgHash := digest, tally := (book.apply H key ballot).counts maxChoices } := by
  obtain ⟨decrypted, decrypts, rfl⟩ := opens
  generalize isKey : key (Ballot.ofDecrypted decrypted).nu = k at entered
  -- The prover opens the tree at the voter's key, whatever lies there.
  obtain ⟨hashes, beside⟩ := exists_beside ((k.val : Nat) : Fr) 0 committed
  have short := shallow.short positive ((k.val : Nat) : Fr)
  rw [beside.length_eq] at short
  obtain ⟨siblings, isSiblings⟩ := exists_ofFn
    ((t.slot ((k.val : Nat) : Fr) 0).openingOf hashes depth).siblings
    (show _ = depth by rw [openingOf_siblings, List.length_append, List.length_replicate]; omega)
  obtain ⟨leafOld, isLeafOld, looked⟩ := shallow.tracks.exists_leafOld isEmpty k
  let acc' : TallyAcc maxChoices :=
    { root, cumulativeMsgHash := digest,
      tally := (book.apply H key (Ballot.ofDecrypted decrypted)).counts maxChoices }
  have compact := shallow.shaped.compact
  have shown : ((t.slot ((k.val : Nat) : Fr) 0).openingOf hashes depth).Verifies H acc.root
      ((k.val : Nat) : Fr) (if book k = none then none else some leafOld) := by
    rw [← looked]
    cases found : t.lookup ((k.val : Nat) : Fr) 0 with
    | none => exact opening_excludes compact committed beside short found
    | some value => exact opening_includes compact committed beside short found
  have occupied : book k ≠ none →
      ((t.slot ((k.val : Nat) : Fr) 0).openingOf hashes depth).isOld0 = false := by
    intro stored
    rw [if_neg stored] at looked
    exact openingOf_occupied looked
  have processed : Processed H book k (Ballot.ofDecrypted decrypted) leafNew
      ((t.slot ((k.val : Nat) : Fr) 0).openingOf hashes depth) acc.root root := by
    cases entered with
    | skipped mismatch =>
        rw [Option.some.inj (committed'.symm.trans committed)]
        exact .skipped mismatch
    | inserted found absent done =>
        exact .inserted found absent (opening_inserts compact committed beside short done committed')
    | updated found present done =>
        exact .updated found (by simp [present])
          (opening_updates compact committed beside short done committed')
  refine ⟨.ofRecord acc acc' sk m msgHash decrypted siblings _ (book k) k hash0 leafOld leafNew,
    TallySingle.ofRecord_constraints complete isSiblings occupied decrypts hashed chained isHash0 isLeafOld
      isLeaf shown processed fun choice => ?_, rfl, rfl, rfl, rfl, rfl⟩
  show (book.apply H key (Ballot.ofDecrypted decrypted)).counts maxChoices choice = _
  rw [counted, Book.apply, isKey]
  split_ifs with found
  · exact book.counts_update few k _ choice
  · rw [tallyChoice, zero_mul, add_zero]

end entry

section batch

variable {G : Gadgets H}

def TallySingle.idle (w : TallySingle depth maxChoices) (cumulativeMsgHash : Fr) :
    TallySingle depth maxChoices :=
  { w with
    enabled := 0, rootOld := w.rootNew, cumulativeMsgHashOld := w.cumulativeMsgHashNew,
      tallyOld := w.tallyNew,
    cumulativeMsgHash }

theorem TallySingle.Constraints.idle {w : TallySingle depth maxChoices} (constraints : w.Constraints G)
    (complete : G.Complete)
    {next : Fr} (chained : H.hash [w.cumulativeMsgHashNew, w.msgHash] = some next) :
    (w.idle next).Constraints G := by
  have invalid : (w.idle next).isVoteValid = 0 := zero_mul _
  refine { constraints with
    verifier := complete.disabled _ rfl
    processor := complete.noOp _ ?_ rfl
    tallyNew := ?_
    cumulativeMsgHash := chained
    cumulativeMsgHashNew := ?_ }
  · simp only [TallySingle.processor, invalid, zero_mul]
  · intro choice
    rw [invalid, tallyChoice, zero_mul, add_zero]
    rfl
  · show w.cumulativeMsgHashNew = w.cumulativeMsgHashNew + 0 * _
    rw [zero_mul, add_zero]

local instance (priority := 2000) neZero_succ (n : Nat) : NeZero (n + 1) := ⟨Nat.succ_ne_zero n⟩

def Tally.ofSingle (maxBatch : Nat) (w : TallySingle depth maxChoices)
    (idleHash saltOld saltNew hashOld hashNew : Fr) :
    Tally depth maxChoices maxBatch where
  rootOld := w.rootOld
  cumulativeMsgHashOld := w.cumulativeMsgHashOld
  tallyHashOld := hashOld
  rootNew := w.rootNew
  cumulativeMsgHashNew := w.cumulativeMsgHashNew
  tallyHashNew := hashNew
  batchLen := 1
  tallyOld := w.tallyOld
  tallySaltOld := saltOld
  tallySaltNew := saltNew
  tallierSk := w.tallierSk
  rootAcc i := if i = 0 then w.rootOld else w.rootNew
  cumulativeMsgHashAcc i := if i = 0 then w.cumulativeMsgHashOld else w.cumulativeMsgHashNew
  tallyAcc i := if i = 0 then w.tallyOld else w.tallyNew
  tallySingle i := if i.val = 0 then w else w.idle idleHash

namespace Tally

variable {w : TallySingle depth maxChoices} {next saltOld saltNew hashOld hashNew : Fr}

theorem ofSingle_acc_zero : (ofSingle maxBatch w next saltOld saltNew hashOld hashNew).acc 0 = w.accOld := by
  simp [ofSingle, acc, TallySingle.accOld]

theorem ofSingle_acc {i : Fin (maxBatch + 1)} (later : i ≠ 0) :
    (ofSingle maxBatch w next saltOld saltNew hashOld hashNew).acc i = w.accNew := by
  simp [ofSingle, acc, TallySingle.accNew, later]

theorem ofSingle_entry {i : Fin maxBatch} (first : i.val = 0) :
    (ofSingle maxBatch w next saltOld saltNew hashOld hashNew).tallySingle i = w := if_pos first

theorem ofSingle_idle {i : Fin maxBatch} (later : i.val ≠ 0) :
    (ofSingle maxBatch w next saltOld saltNew hashOld hashNew).tallySingle i = w.idle next := if_neg later

theorem ofSingle_constraints (constraints : w.Constraints G) (on : w.enabled = 1) (complete : G.Complete)
    (positive : 0 < maxBatch) (few : maxBatch ≤ 2 ^ 16)
    (chained : H.hash [w.cumulativeMsgHashNew, w.msgHash] = some next)
    (hashedOld : H.hash (saltOld :: List.ofFn w.tallyOld) = some hashOld)
    (hashedNew : H.hash (saltNew :: List.ofFn w.tallyNew) = some hashNew)
    (first : w.cumulativeMsgHashOld = 0 → w.tallyOld = fun _ => 0) :
    (ofSingle maxBatch w next saltOld saltNew hashOld hashNew).Constraints G := by
  have last : Fin.last maxBatch ≠ 0 := by
    rw [Ne, Fin.ext_iff]
    exact Nat.ne_of_gt positive
  have final : (ofSingle maxBatch w next saltOld saltNew hashOld hashNew).acc (Fin.last maxBatch) = w.accNew :=
    ofSingle_acc last
  refine
    { tallyHashOld := hashedOld
      isFirstBatch := fun t => ?_
      accZero := ofSingle_acc_zero
      enabled := fun i => ?_
      accOld := fun i => ?_
      accNew := fun i => ?_
      tallierSk := fun i => ?_
      tallySingle := fun i => ?_
      cumulativeMsgHashNew := (congrArg TallyAcc.cumulativeMsgHash final).symm
      tallyHashNew := ?_
      rootNew := (congrArg TallyAcc.root final).symm }
  · -- Only a batch that starts from no messages is taken to start from no votes.
    show isZero w.cumulativeMsgHashOld * w.tallyOld t = 0
    by_cases zero : w.cumulativeMsgHashOld = 0
    · rw [first zero, mul_zero]
    · rw [isZero, if_neg zero, zero_mul]
  · -- With a batch length of one, only the first entry is on.
    have compared : LessThan 16 (i.val : Nat) ((1 : Nat) : Fr) (if i.val < 1 then 1 else 0) :=
      LessThan.complete (by omega) (by omega) (by omega)
    rw [Nat.cast_one] at compared
    by_cases zero : i.val = 0
    · rw [if_pos (by omega)] at compared
      rwa [ofSingle_entry zero, on]
    · rw [if_neg (by omega)] at compared
      rwa [ofSingle_idle zero]
  · -- The idle entries all read the accumulator that the first one left.
    by_cases zero : i.val = 0
    · rw [ofSingle_entry zero, show i.castSucc = 0 from Fin.ext zero, ofSingle_acc_zero]
    · rw [ofSingle_idle zero, ofSingle_acc fun same => zero (congrArg Fin.val same)]
      rfl
  · rw [ofSingle_acc (Fin.succ_ne_zero i)]
    by_cases zero : i.val = 0
    · rw [ofSingle_entry zero]
    · rw [ofSingle_idle zero]
      rfl
  · by_cases zero : i.val = 0
    · rw [ofSingle_entry zero]
      rfl
    · rw [ofSingle_idle zero]
      rfl
  · by_cases zero : i.val = 0
    · rwa [ofSingle_entry zero]
    · rw [ofSingle_idle zero]
      exact constraints.idle complete chained
  · have tally := congrArg TallyAcc.tally final
    rw [show (ofSingle maxBatch w next saltOld saltNew hashOld hashNew).tallyAcc (Fin.last maxBatch) =
      w.tallyNew from tally]
    exact hashedNew

end Tally

end batch

section runs

variable {G : Gadgets H} {key : Fr → Fin (2 ^ depth)} {salt : Nat → Fr} {sk digest : Fr}

/-- The hash is defined on all that a tallier hashes who gives the nullifiers these keys. -/
structure Hashable (H : IdealHash Fr) (maxChoices : Nat) (key : Fr → Fin (2 ^ depth)) (salt : Nat → Fr)
    (messages : List Message) (ballots : List Ballot) : Prop where
  noVote : ∃ hash0 empty, H.hash [0] = some hash0 ∧ H.hash [0, hash0] = some empty
  leaves : ∀ b ∈ ballots, ∃ leaf, H.hash [b.choice, b.revotingKeyNew] = some leaf
  roots : ∀ past t, past <+: ballots → t.Shaped depth → Tracks H (reference H key past) t →
    ∃ root, t.commit H = some root
  tallies : ∀ past, past <+: ballots →
    ∃ hash, H.hash (salt past.length :: List.ofFn ((reference H key past).counts maxChoices)) = some hash
  -- Entries that are switched off hash their message into the digest all the same.
  idle : ∀ past m digest msgHash, past ++ [m] <+: messages → Absorbs H 0 (past ++ [m]) digest →
    H.hash m.preimage = some msgHash → ∃ next, H.hash [digest, msgHash] = some next

theorem Absorbs.uncons {acc acc' : Fr} {m : Message} {ms : List Message}
    (absorbs : Absorbs H acc (m :: ms) acc') :
    ∃ msgHash next, H.hash m.preimage = some msgHash ∧ H.hash [acc, msgHash] = some next ∧
    Absorbs H next ms acc' := by
  obtain ⟨hashes, hashed, chained⟩ := absorbs
  cases hashed with
  | @cons _ msgHash _ rest first deeper =>
      rw [IdealHash.chain_cons] at chained
      obtain ⟨next, isNext, chained⟩ := Option.bind_eq_some_iff.1 chained
      exact ⟨msgHash, next, first, isNext, rest, deeper, chained⟩

structure Tallied (H : IdealHash Fr) (maxChoices : Nat) (key : Fr → Fin (2 ^ depth)) (salt : Nat → Fr)
    (messages : List Message) (ballots : List Ballot) (s : TallyState) (t : SparseTree Fr) : Prop where
  shallow : Shallow H (reference H key ballots) t
  committed : t.commit H = some s.root
  absorbed : Absorbs H 0 messages s.cumulativeMsgHash
  hashed : H.hash (salt ballots.length :: List.ofFn ((reference H key ballots).counts maxChoices)) =
    some s.tallyHash

theorem Tallied.initial {hash : Fr}
    (hashed : H.hash (salt 0 :: List.ofFn ((reference H key []).counts maxChoices)) = some hash) :
    Tallied H maxChoices key salt [] [] { root := 0, cumulativeMsgHash := 0, tallyHash := hash } .empty where
  shallow := ⟨Tracks.fresh, SparseTree.shaped_empty depth, by simp [SparseTree.leaves]⟩
  committed := rfl
  absorbed := .nil 0
  hashed := hashed

theorem Tallied.step {past rest : List Message} {pastBallots restBallots : List Ballot} {m : Message}
    {ballot : Ballot} {s : TallyState} {t : SparseTree Fr} (complete : G.Complete) (small : depth < 254)
    (positive : 0 < depth) (few : maxChoices < scalarModulus) (nonempty : 0 < maxBatch) (bounded : maxBatch ≤ 2 ^ 16)
    (hashable : Hashable H maxChoices key salt (past ++ m :: rest) (pastBallots ++ ballot :: restBallots))
    (low : (key ballot.nu).val < 2 ^ (depth - 1))
    (tallied : Tallied H maxChoices key salt past pastBallots s t)
    (same : past.length = pastBallots.length) (opens : G.Decrypts sk m ballot)
    (absorbs : Absorbs H s.cumulativeMsgHash (m :: rest) digest) :
    ∃ (w : Tally depth maxChoices maxBatch) (s' : TallyState) (t' : SparseTree Fr), Tally.Step G s w s' ∧
      Tallied H maxChoices key salt (past ++ [m]) (pastBallots ++ [ballot]) s' t' ∧
      Absorbs H s'.cumulativeMsgHash rest digest := by
  obtain ⟨msgHash, next, hashed, chained, later⟩ := absorbs.uncons
  obtain ⟨hash0, empty, isHash0, isEmpty⟩ := hashable.noVote
  obtain ⟨leaf, isLeaf⟩ := hashable.leaves ballot (by simp)
  have inPrefix : pastBallots ++ [ballot] <+: pastBallots ++ ballot :: restBallots := ⟨restBallots, by simp⟩
  obtain ⟨t', entered⟩ := tallied.shallow.exists_entered small ballot (key ballot.nu) leaf
  have shallow := tallied.shallow.entered small isLeaf low entered
  rw [← reference_snoc] at shallow
  obtain ⟨root, committed⟩ := hashable.roots _ t' inPrefix shallow.shaped shallow.tracks
  obtain ⟨tallyHash, isTally⟩ := hashable.tallies _ inPrefix
  have absorbed : Absorbs H 0 (past ++ [m]) next := tallied.absorbed.append (.single hashed chained)
  obtain ⟨idleHash, isIdle⟩ := hashable.idle past m next msgHash ⟨rest, by simp⟩ absorbed hashed
  obtain ⟨w, constraints, on, _, message, old, new⟩ := exists_entry complete positive few tallied.shallow
    (show t.commit H = some (TallyAcc.mk s.root s.cumulativeMsgHash _).root from tallied.committed) rfl
    opens hashed chained isHash0 isEmpty isLeaf entered committed
  have tallyOld : w.tallyOld = (reference H key pastBallots).counts maxChoices := congrArg TallyAcc.tally old
  have tallyNew : w.tallyNew = (reference H key (pastBallots ++ [ballot])).counts maxChoices := by
    rw [reference_snoc]
    exact congrArg TallyAcc.tally new
  have digestOld : w.cumulativeMsgHashOld = s.cumulativeMsgHash := congrArg TallyAcc.cumulativeMsgHash old
  have digestNew : w.cumulativeMsgHashNew = next := congrArg TallyAcc.cumulativeMsgHash new
  have idle : H.hash [w.cumulativeMsgHashNew, w.msgHash] = some idleHash := by
    have own := constraints.msgHasher
    rw [message, hashed] at own
    rwa [digestNew, ← Option.some.inj own]
  have first : w.cumulativeMsgHashOld = 0 → w.tallyOld = fun _ => 0 := by
    -- The digest is zero only before the first message, and no ballot was counted then.
    intro zero
    have none : past = [] := tallied.absorbed.injective (by rw [← digestOld, zero]; exact .nil 0)
    rw [none, List.length_nil, eq_comm, List.length_eq_zero_iff] at same
    rw [tallyOld, same]
    funext choice
    simp [Book.counts, Book.count, reference]
  rw [← tallyNew] at isTally
  have before := tallied.hashed
  rw [← tallyOld] at before
  refine ⟨.ofSingle maxBatch w idleHash _ _ s.tallyHash tallyHash,
    { root, cumulativeMsgHash := next, tallyHash }, t',
    ⟨Tally.ofSingle_constraints constraints on complete nonempty bounded idle before isTally first, ?_, ?_⟩,
    ⟨shallow, committed, absorbed, ?_⟩, later⟩
  · exact congrArg (fun acc : TallyAcc maxChoices =>
      TallyState.mk acc.root acc.cumulativeMsgHash s.tallyHash) old
  · exact congrArg (fun acc : TallyAcc maxChoices =>
      TallyState.mk acc.root acc.cumulativeMsgHash tallyHash) new
  · rwa [← tallyNew]

theorem Tallied.run (maxBatch : Nat) {messages past rest : List Message}
    {ballots pastBallots restBallots : List Ballot}
    {s : TallyState} {t : SparseTree Fr} (complete : G.Complete) (small : depth < 254)
    (positive : 0 < depth) (few : maxChoices < scalarModulus)
    (nonempty : 0 < maxBatch) (bounded : maxBatch ≤ 2 ^ 16)
    (hashable : Hashable H maxChoices key salt messages ballots)
    (low : ∀ b ∈ ballots, (key b.nu).val < 2 ^ (depth - 1))
    (opens : List.Forall₂ (G.Decrypts sk) rest restBallots)
    (split : past ++ rest = messages) (splitBallots : pastBallots ++ restBallots = ballots)
    (same : past.length = pastBallots.length) (tallied : Tallied H maxChoices key salt past pastBallots s t)
    (absorbs : Absorbs H s.cumulativeMsgHash rest digest) :
    ∃ (ws : List (Tally depth maxChoices maxBatch)) (s' : TallyState) (t' : SparseTree Fr),
      Steps (Tally.Step G) s ws s' ∧
      Tallied H maxChoices key salt messages ballots s' t' ∧ s'.cumulativeMsgHash = digest := by
  induction opens generalizing past pastBallots s t with
  | nil =>
      rw [List.append_nil] at split splitBallots
      subst split splitBallots
      obtain ⟨_, none, chained⟩ := absorbs
      cases none
      exact ⟨[], s, t, .nil s, tallied, Option.some.inj chained⟩
  | @cons m ballot rest restBallots opens _ ih =>
      subst split splitBallots
      obtain ⟨w, mid, t₁, step, tallied₁, absorbs₁⟩ :=
        tallied.step complete small positive few nonempty bounded hashable
          (low ballot (by simp)) same opens absorbs
      obtain ⟨ws, s', t', run, done, digest⟩ := ih (by simp) (by simp) (by simp [same]) tallied₁ absorbs₁
      exact ⟨w :: ws, s', t', .cons step run, done, digest⟩

end runs

section indices

theorem exists_ballot {K : Type} [DecidableEq K] {key : Fr → K} {ballots : List Ballot} {k : K}
    {entry : Fr × Fr} (onRecord : reference H key ballots k = some entry) :
      ∃ b ∈ ballots, key b.nu = k ∧ entry = (b.choice, b.revotingKeyNew) := by
  induction ballots using List.reverseRecOn with
  | nil => cases onRecord
  | append_singleton front ballot ih =>
      rw [reference_snoc, Book.apply] at onRecord
      split_ifs at onRecord
      · by_cases own : k = key ballot.nu
        · rw [own, Function.update_self, Option.some.injEq] at onRecord
          exact ⟨ballot, by simp, own.symm, onRecord.symm⟩
        · rw [Function.update_of_ne own] at onRecord
          obtain ⟨b, member, same⟩ := ih onRecord
          exact ⟨b, by simp [member], same⟩
      · obtain ⟨b, member, same⟩ := ih onRecord
        exact ⟨b, by simp [member], same⟩

theorem count_le_nullifiers (ballots : List Ballot) (choice : Fr) :
    (reference H (fun nu => nu) ballots).count choice ≤ (ballots.map Ballot.nu).dedup.length := by
  rw [← List.card_toFinset]
  refine Finset.card_le_card fun nu counted => ?_
  obtain ⟨entry, onRecord, _⟩ := Option.map_eq_some_iff.1 (Finset.mem_filter.1 counted).2
  obtain ⟨b, member, same, _⟩ := exists_ballot onRecord
  rw [List.mem_toFinset, ← same]
  exact List.mem_map_of_mem member

theorem count_eq_zero {ballots : List Ballot} {choice : Fr} (none : ∀ b ∈ ballots, b.choice ≠ choice) :
    (reference H (fun nu => nu) ballots).count choice = 0 := by
  refine Finset.card_eq_zero.2 (Finset.filter_eq_empty_iff.2 fun nu _ counted => ?_)
  obtain ⟨entry, onRecord, isChoice⟩ := Option.map_eq_some_iff.1 counted
  obtain ⟨b, member, _, rfl⟩ := exists_ballot onRecord
  exact none b member isChoice

def leafIndex (depth : Nat) (nus : List Fr) (nu : Fr) : Fin (2 ^ depth) :=
  ⟨nus.dedup.idxOf nu % 2 ^ depth, Nat.mod_lt _ (Nat.two_pow_pos depth)⟩

variable {nus : List Fr}

theorem leafIndex_low (few : nus.dedup.length ≤ 2 ^ (depth - 1)) {nu : Fr} (member : nu ∈ nus) :
    (leafIndex depth nus nu).val = nus.dedup.idxOf nu ∧ (leafIndex depth nus nu).val < 2 ^ (depth - 1) := by
  have inside : nus.dedup.idxOf nu < 2 ^ (depth - 1) :=
    lt_of_lt_of_le (List.idxOf_lt_length_iff.2 (List.mem_dedup.2 member)) few
  have power : 2 ^ (depth - 1) ≤ 2 ^ depth := Nat.pow_le_pow_right (by omega) (by omega)
  have same : (leafIndex depth nus nu).val = nus.dedup.idxOf nu := Nat.mod_eq_of_lt (by omega)
  exact ⟨same, by rwa [same]⟩

theorem leafIndex_injective (few : nus.dedup.length ≤ 2 ^ (depth - 1)) {nu nu' : Fr} (member : nu ∈ nus)
    (member' : nu' ∈ nus)
    (same : leafIndex depth nus nu = leafIndex depth nus nu') : nu = nu' := by
  have index := congrArg Fin.val same
  rw [(leafIndex_low few member).1, (leafIndex_low few member').1] at index
  exact List.idxOf_inj (List.mem_dedup.2 member) |>.1 index

theorem count_leafIndex {ballots : List Ballot}
    (few : (ballots.map Ballot.nu).dedup.length ≤ 2 ^ (depth - 1)) (choice : Fr) :
    (reference H (leafIndex depth (ballots.map Ballot.nu)) ballots).count choice =
      (reference H (fun nu => nu) ballots).count choice := by
  have apart : ∀ nu nu', nu ∈ ballots.map Ballot.nu → nu' ∈ ballots.map Ballot.nu →
      leafIndex depth (ballots.map Ballot.nu) nu = leafIndex depth (ballots.map Ballot.nu) nu' → nu = nu' :=
    fun _ _ member member' => leafIndex_injective few member member'
  have rekeyed := reference_rekeyed (H := H) (· ∈ ballots.map Ballot.nu)
    (leafIndex depth (ballots.map Ballot.nu)) (fun nu => nu)
    (fun nu nu' member member' => ⟨apart nu nu' member member', congrArg _⟩) (fun b => List.mem_map_of_mem)
  exact rekeyed.count apart choice

end indices

end Mootvote
