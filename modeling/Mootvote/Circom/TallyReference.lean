import Mootvote.Circom.TallyCount

set_option autoImplicit false

/-!
# The reference tally

What the ballots of a poll amount to, whoever tallies them: a book that keeps, for each voter, the
last ballot whose old revoting key matched.
-/

namespace Mootvote

open Shared SparseMerkle

variable {H : IdealHash Fr} {depth maxChoices maxBatch : Nat} {K K' : Type}

abbrev Book (K : Type) := K → Option (Fr × Fr)

/-- The revoting key a ballot must name to replace what is on record. -/
def Book.revotingKey (H : IdealHash Fr) (book : Book K) (k : K) : Option Fr :=
  match book k with
  | none => H.hash [0]
  | some entry => some entry.2

def Book.apply [DecidableEq K] (H : IdealHash Fr) (key : Fr → K) (book : Book K) (ballot : Ballot) : Book K :=
  if book.revotingKey H (key ballot.nu) = some ballot.revotingKeyOld then
    Function.update book (key ballot.nu) (some (ballot.choice, ballot.revotingKeyNew))
  else book

def reference [DecidableEq K] (H : IdealHash Fr) (key : Fr → K) (ballots : List Ballot) : Book K :=
  ballots.foldl (Book.apply H key) fun _ => none

def Book.count [Fintype K] (book : Book K) (choice : Fr) : Nat :=
  (Finset.univ.filter fun k => (book k).map Prod.fst = some choice).card

theorem Book.count_single [DecidableEq K] [Fintype K] (k : K) (choice revotingKey : Fr) :
    Book.count (Function.update (fun _ => none) k (some (choice, revotingKey))) choice = 1 := by
  rw [Book.count, Finset.card_eq_one]
  refine ⟨k, ?_⟩
  ext other
  by_cases same : other = k <;> simp [Function.update_apply, same]

theorem reference_snoc [DecidableEq K] (key : Fr → K) (ballots : List Ballot) (ballot : Ballot) :
    reference H key (ballots ++ [ballot]) = (reference H key ballots).apply H key ballot := by
  simp [reference]

section rekey

variable [DecidableEq K] [DecidableEq K'] {key : Fr → K} {key' : Fr → K'}

/-- Two books hold the same under two keys of the nullifiers seen so far, and nothing elsewhere. -/
structure Book.Rekeyed (nus : Fr → Prop) (key : Fr → K) (key' : Fr → K') (book : Book K)
    (book' : Book K') : Prop where
  same : ∀ nu, nus nu → book (key nu) = book' (key' nu)
  inside : ∀ k, book k ≠ none → ∃ nu, nus nu ∧ key nu = k
  inside' : ∀ k, book' k ≠ none → ∃ nu, nus nu ∧ key' nu = k

theorem Book.Rekeyed.apply {nus : Fr → Prop} {book : Book K} {book' : Book K'}
    (rekeyed : Book.Rekeyed nus key key' book book') (ballot : Ballot) (seen : nus ballot.nu)
    (agree : ∀ nu, nus nu → (key nu = key ballot.nu ↔ key' nu = key' ballot.nu)) :
    Book.Rekeyed nus key key' (book.apply H key ballot) (book'.apply H key' ballot) := by
  have onRecord : book.revotingKey H (key ballot.nu) = book'.revotingKey H (key' ballot.nu) := by
    rw [revotingKey, revotingKey, rekeyed.same _ seen]
  unfold Book.apply
  rw [onRecord]
  split_ifs with found
  · refine ⟨fun nu member => ?_, fun k some => ?_, fun k some => ?_⟩
    · rw [Function.update_apply, Function.update_apply]
      simp only [agree nu member, rekeyed.same nu member]
    · by_cases own : k = key ballot.nu
      · exact ⟨ballot.nu, seen, own.symm⟩
      · rw [Function.update_of_ne own] at some
        exact rekeyed.inside k some
    · by_cases own : k = key' ballot.nu
      · exact ⟨ballot.nu, seen, own.symm⟩
      · rw [Function.update_of_ne own] at some
        exact rekeyed.inside' k some
  · exact rekeyed

theorem reference_rekeyed (nus : Fr → Prop) (key : Fr → K) (key' : Fr → K')
    (agree : ∀ nu nu', nus nu → nus nu' → (key nu = key nu' ↔ key' nu = key' nu'))
    {ballots : List Ballot} (seen : ∀ b ∈ ballots, nus b.nu) :
    Book.Rekeyed nus key key' (reference H key ballots) (reference H key' ballots) := by
  induction ballots using List.reverseRecOn with
  | nil => exact ⟨fun _ _ => rfl, fun _ some => absurd rfl some, fun _ some => absurd rfl some⟩
  | append_singleton front ballot ih =>
      have last : nus ballot.nu := seen ballot (by simp)
      rw [reference_snoc, reference_snoc]
      exact (ih fun b member => seen b (by simp [member])).apply ballot last fun nu member =>
        agree nu _ member last

theorem Book.Rekeyed.count [Fintype K] {nus : Fr → Prop} {book : Book K} {book' : Book Fr}
    (rekeyed : Book.Rekeyed nus key (fun nu => nu) book book')
    (injective : ∀ nu nu', nus nu → nus nu' → key nu = key nu' → nu = nu') (choice : Fr) :
    book.count choice = book'.count choice := by
  have images : (Finset.univ.filter fun k => (book k).map Prod.fst = some choice) =
      (Finset.univ.filter fun nu => (book' nu).map Prod.fst = some choice).image key := by
    ext k
    simp only [Finset.mem_filter, Finset.mem_univ, true_and, Finset.mem_image]
    constructor
    · intro counted
      obtain ⟨nu, seen, rfl⟩ := rekeyed.inside k (by intro none; simp [none] at counted)
      exact ⟨nu, by rwa [← rekeyed.same nu seen], rfl⟩
    · rintro ⟨nu, counted, rfl⟩
      obtain ⟨_, seen, rfl⟩ := rekeyed.inside' nu (by intro none; simp [none] at counted)
      rwa [rekeyed.same _ seen]
  rw [Book.count, images, Finset.card_image_of_injOn, Book.count]
  intro nu member nu' member' same
  simp only [Finset.coe_filter, Finset.mem_univ, true_and, Set.mem_ofPred_eq] at member member'
  obtain ⟨_, seen, rfl⟩ := rekeyed.inside' nu (by intro none; simp [none] at member)
  obtain ⟨_, seen', rfl⟩ := rekeyed.inside' nu' (by intro none; simp [none] at member')
  exact injective _ _ seen seen' same

end rekey

def reducedNu (depth : Nat) (nu : Fr) : Fin (2 ^ depth) :=
  ⟨nu.val % 2 ^ depth, Nat.mod_lt _ (Nat.two_pow_pos depth)⟩

@[simp] theorem reducedNu_val (nu : Fr) : (reducedNu depth nu).val = nu.val % 2 ^ depth := rfl

theorem two_pow_lt_scalarModulus (small : depth < 254) : 2 ^ depth < scalarModulus :=
  lt_of_le_of_lt (Nat.pow_le_pow_right (by omega) (by omega)) scalarModulus_gt

theorem val_cast_fin (small : depth < 254) (k : Fin (2 ^ depth)) : ((k.val : Nat) : Fr).val = k.val := by
  have modulus := two_pow_lt_scalarModulus small
  rw [ZMod.val_natCast, Nat.mod_eq_of_lt (by omega)]

theorem TallySingle.CanonicalKey.nuLo_eq {G : Gadgets H} {w : TallySingle depth maxChoices}
    (canonical : w.CanonicalKey) (constraints : w.Constraints G) :
    w.nuLo = ((reducedNu depth w.ballot.nu).val : Nat) := by
  rw [reducedNu_val]
  exact CanonicalSplit.lo_eq canonical constraints.nuSplit

/-- The tree holds the book: at each reduced nullifier, the hash of what the book has on record. -/
structure Tracks (H : IdealHash Fr) (book : Book (Fin (2 ^ depth))) (t : SparseTree Fr) : Prop where
  entries : ∀ k, Option.Rel (fun entry value => H.hash [entry.1, entry.2] = some value)
    (book k) (t.lookup ((k.val : Nat) : Fr) 0)
  keys : ∀ entry ∈ t.leaves, entry.1.val < 2 ^ depth

namespace Tracks

variable {book : Book (Fin (2 ^ depth))} {t t' : SparseTree Fr}

theorem fresh : Tracks H (fun _ : Fin (2 ^ depth) => none) .empty where
  entries := fun _ => .none
  keys := by simp [SparseTree.leaves]

theorem store {key : Fin (2 ^ depth)} {choice revotingKey value : Fr} (tracks : Tracks H book t)
    (small : depth < 254) (hashed : H.hash [choice, revotingKey] = some value)
    (lookup : ∀ other, t'.lookup other 0 =
      if other = ((key.val : Nat) : Fr) then some value else t.lookup other 0)
    (keys : ∀ entry ∈ t'.leaves, entry.1.val < 2 ^ depth) :
    Tracks H (Function.update book key (some (choice, revotingKey))) t' := by
  refine ⟨fun k => ?_, keys⟩
  rw [lookup]
  by_cases same : k = key
  · subst same
    rw [if_pos rfl, Function.update_self]
    exact .some hashed
  · have distinct : ((k.val : Nat) : Fr) ≠ ((key.val : Nat) : Fr) := by
      intro equal
      have val := congrArg ZMod.val equal
      rw [val_cast_fin small, val_cast_fin small] at val
      exact same (Fin.ext val)
    rw [if_neg distinct, Function.update_of_ne same]
    exact tracks.entries k

theorem revotingKey {G : Gadgets H} {w : TallySingle depth maxChoices} (tracks : Tracks H book t)
    (constraints : w.Constraints G) (on : w.enabled = 1) (controls : w.BooleanControls)
    (canonical : w.CanonicalKey) (committed : t.commit H = some w.rootOld) :
    book.revotingKey H (reducedNu depth w.ballot.nu) = some w.revotingKeyOld := by
  have related := tracks.entries (reducedNu depth w.ballot.nu)
  rw [← canonical.nuLo_eq constraints, constraints.lookup on controls committed] at related
  unfold Book.revotingKey
  rcases controls.2 with present | absent
  · rw [if_neg (by simp [present])] at related
    cases stored : book (reducedNu depth w.ballot.nu) with
    | none =>
        rw [stored] at related
        cases related
    | some entry =>
        rw [stored] at related
        cases related with
        | some hashed =>
            have same := H.injective hashed constraints.leafOld
            simp only [List.cons.injEq] at same
            exact congrArg some same.2.1
  · rw [if_pos absent] at related
    have key : w.revotingKeyOld = w.hash0 := by
      have zero := constraints.emptyKey
      rw [absent, one_mul] at zero
      exact sub_eq_zero.1 zero
    cases stored : book (reducedNu depth w.ballot.nu) with
    | none => simpa [key] using constraints.hash0
    | some entry =>
        rw [stored] at related
        cases related

theorem effect {G : Gadgets H} {w : TallySingle depth maxChoices} (tracks : Tracks H book t)
    (small : depth < 254) (constraints : w.Constraints G) (on : w.enabled = 1) (controls : w.BooleanControls)
    (canonical : w.CanonicalKey) (committed : t.commit H = some w.rootOld) (ordered : t.Ordered 0)
    (effect : TallySingle.Effect H w t t') : Tracks H (book.apply H (reducedNu depth) w.ballot) t' := by
  have onRecord := tracks.revotingKey constraints on controls canonical committed
  have key := canonical.nuLo_eq constraints
  unfold Book.apply
  rw [onRecord]
  cases effect with
  | skipped mismatch =>
      rw [if_neg (by simpa using mismatch.symm)]
      exact tracks
  | inserted found _ done =>
      rw [if_pos (by rw [found])]
      refine tracks.store small constraints.leafNew (fun other => ?_) ?_
      · rw [← key]
        exact SparseTree.lookup_add ordered done other
      · intro entry member
        rcases List.mem_cons.1 ((SparseTree.add_leaves done).mem_iff.1 member) with rfl | old
        · exact canonical.1
        · exact tracks.keys entry old
  | updated found _ done =>
      rw [if_pos (by rw [found])]
      refine tracks.store small constraints.leafNew (fun other => ?_) ?_
      · rw [← key]
        exact SparseTree.lookup_set ordered done other
      · intro entry member
        obtain ⟨entry', old, same⟩ :=
          List.mem_map.1 ((SparseTree.set_keys done).mem_iff.1 (List.mem_map_of_mem member))
        rw [← same]
        exact tracks.keys entry' old

theorem leafCount (tracks : Tracks H book t) (small : depth < 254) (ordered : t.Ordered 0) (choice : Fr) :
    leafCount H t choice = book.count choice := by
  classical
  have recorded (k : Fin (2 ^ depth)) : (book k).map Prod.fst = some choice ↔
      ∃ value, t.lookup ((k.val : Nat) : Fr) 0 = some value ∧ Records H choice value := by
    have related := tracks.entries k
    generalize book k = stored at related ⊢
    generalize t.lookup ((k.val : Nat) : Fr) 0 = looked at related ⊢
    cases related with
    | none => simp
    | some hashed => simp [records_iff hashed]
  -- Both sides count the keys of the leaves that record the choice.
  have nodup : ((t.leaves.filter fun entry => Records H choice entry.2).map Prod.fst).Nodup :=
    (SparseTree.nodup_keys ordered).sublist (List.filter_sublist.map Prod.fst)
  have keys : ((t.leaves.filter fun entry => Records H choice entry.2).map Prod.fst).toFinset =
      (Finset.univ.filter fun k : Fin (2 ^ depth) => (book k).map Prod.fst = some choice).image
        fun k => ((k.val : Nat) : Fr) := by
    ext key
    simp only [List.mem_toFinset, List.mem_map, List.mem_filter, decide_eq_true_eq, Prod.exists,
      exists_and_right, exists_eq_right, Finset.mem_image, Finset.mem_filter, Finset.mem_univ, true_and,
      recorded, SparseTree.lookup_eq_some_iff ordered]
    constructor
    · rintro ⟨value, member, records⟩
      refine ⟨⟨key.val, tracks.keys _ member⟩, ⟨value, ?_⟩, ?_⟩ <;> rw [ZMod.natCast_zmod_val]
      exact ⟨member, records⟩
    · rintro ⟨k, ⟨value, member, records⟩, rfl⟩
      exact ⟨value, member, records⟩
  have injective : Function.Injective fun k : Fin (2 ^ depth) => ((k.val : Nat) : Fr) := by
    intro k k' equal
    have val := congrArg ZMod.val equal
    rw [val_cast_fin small, val_cast_fin small] at val
    exact Fin.ext val
  rw [Book.count, ← Finset.card_image_of_injective _ injective, ← keys, List.toFinset_card_of_nodup nodup,
    List.length_map, ← List.countP_eq_length_filter, Mootvote.leafCount]

end Tracks

section runs

variable {G : Gadgets H} {ws : List (Tally depth maxChoices maxBatch)} {s s' : TallyState}

/-- Every enabled entry of the proofs uses zero-or-one selectors and the canonical leaf key. -/
def LeafKeysAsIntended (ws : List (Tally depth maxChoices maxBatch)) : Prop :=
  ∀ w ∈ ws, ∀ e ∈ w.entries, e.enabled = 1 → e.BooleanControls ∧ e.CanonicalKey

instance : Decidable (LeafKeysAsIntended ws) :=
  inferInstanceAs (Decidable (∀ w ∈ ws, ∀ e ∈ w.entries, e.enabled = 1 → _ ∧ _))

theorem tally_run_reference (small : depth < 254) (few : maxChoices < scalarModulus)
    (fresh : s.root = 0 ∧ s.cumulativeMsgHash = 0) (run : Steps (Tally.Step G) s ws s') (started : ws ≠ [])
    (intended : LeafKeysAsIntended ws) {salt : Fr} {tally : Fin maxChoices → Fr}
    (opened : H.hash (salt :: List.ofFn tally) = some s'.tallyHash) (k : Fin maxChoices) :
    (tally k).val = (reference H (reducedNu depth) (ws.flatMap Tally.ballots)).count (k.val + 1 : Nat) := by
  obtain ⟨t, carried⟩ := carried_run (J := fun bs t => Tracks H (reference H (reducedNu depth) bs) t)
    fresh Tracks.fresh small few run (fun w member e inside on => (intended w member e inside on).1) (by
      intro w member e inside on bs t t' committed ordered effect tracks
      obtain ⟨controls, canonical⟩ := intended w member e inside on
      obtain ⟨acc, mid, step⟩ := run.step_of_mem member
      obtain ⟨i, rfl⟩ := (List.mem_ofFn' w.tallySingle e).1 inside
      rw [reference_snoc]
      exact tracks.effect small (step.constraints.tallySingle i) on controls canonical committed
        ordered effect)
  rw [carried.val small started opened k, carried.holds.leafCount small carried.ordered]

theorem Gadgets.Authenticated.unique (authentic : G.Authenticated) {ms : List Message} {bs bs' : List Ballot}
    (left : List.Forall₂ G.Opens ms bs) (right : List.Forall₂ G.Opens ms bs') : bs = bs' := by
  induction left generalizing bs' with
  | nil =>
      cases right
      rfl
  | cons first _ ih =>
      cases right with
      | cons first' rest' => rw [authentic _ _ _ first first', ih rest']

/-- The tally is the reference tally of the messages when no prover strays from the intended leaf keys. -/
theorem tally_matches_reference (authentic : G.Authenticated) (small : depth < 254)
    (few : maxChoices < scalarModulus) (fresh : s.root = 0 ∧ s.cumulativeMsgHash = 0)
    (run : Steps (Tally.Step G) s ws s') (started : ws ≠ []) (intended : LeafKeysAsIntended ws)
    {ballots : List Ballot} (opened : List.Forall₂ G.Opens (ws.flatMap Tally.messages) ballots) :
    ∃ salt, ∃ tally : Fin maxChoices → Fr, H.hash (salt :: List.ofFn tally) = some s'.tallyHash ∧
      ∀ k, (tally k).val = (reference H (reducedNu depth) ballots).count (k.val + 1 : Nat) := by
  obtain ⟨t, carried⟩ := carried_run (J := fun _ _ => True) fresh trivial small few run
    (fun w member e inside on => (intended w member e inside on).1) (fun _ _ _ _ _ _ _ _ _ _ _ _ => trivial)
  obtain ⟨salt, tally, hashed⟩ := carried.opens started
  refine ⟨salt, tally, hashed, fun k => ?_⟩
  rw [authentic.unique opened (Tally.opens_run run)]
  exact tally_run_reference small few fresh run started intended hashed k

end runs

namespace DoubleCount

def ballot : Ballot := { nu := 5, choice := 1, revotingKeyOld := 100, revotingKeyNew := 7 }

theorem authenticated : gadgets.Authenticated := by
  rintro m _ _ ⟨_, decrypted, opened, rfl⟩ ⟨_, decrypted', opened', rfl⟩
  have same : decrypted = decrypted' := funext fun i => (opened i).trans (opened' i).symm
  rw [same]

theorem honest_intended : LeafKeysAsIntended [batch false] := by
  simp only [LeafKeysAsIntended, List.mem_singleton, forall_eq, Tally.entries, List.forall_mem_ofFn_iff]
  decide +kernel

theorem tally_matches_reference_honest : ∃ salt, ∃ tally : Fin 11 → Fr,
    hash.hash (salt :: List.ofFn tally) = some 111 ∧
    ∀ k, (tally k).val =
      (reference hash (reducedNu 64) ([batch false].flatMap Tally.ballots)).count (k.val + 1 : Nat) :=
  tally_matches_reference authenticated (by decide) (by decide) ⟨rfl, rfl⟩ (batch_run false) (by simp)
    honest_intended (Tally.opens_run (batch_run false))

/-- The hints are free field elements: `5 = 4 + 2^-64 * 2^64`, so one voter is counted twice. -/
theorem tally_reference_fails : ∃ (H : IdealHash Fr) (G : Gadgets H) (ws : List (Tally 64 11 6))
    (s s' : TallyState)
    (ballots : List Ballot) (salt : Fr) (tally : Fin 11 → Fr),
    G.Authenticated ∧ (s.root = 0 ∧ s.cumulativeMsgHash = 0) ∧ Steps (Tally.Step G) s ws s' ∧ ws ≠ [] ∧
      (∀ w ∈ ws, ∀ e ∈ w.entries, e.BooleanControls) ∧
      List.Forall₂ G.Opens (ws.flatMap Tally.messages) ballots ∧
      H.hash (salt :: List.ofFn tally) = some s'.tallyHash ∧
      (tally 0).val = 2 ∧ (reference H (reducedNu 64) ballots).count 1 = 1 := by
  refine ⟨hash, gadgets, [batch true], fresh, (batch true).stateNew, [ballot, ballot], 9, counts 2,
    authenticated,
    ⟨rfl, rfl⟩, batch_run true, by simp, ?_, ?_, by decide +kernel, by decide +kernel, ?_⟩
  · simp only [List.mem_singleton, forall_eq, Tally.entries, List.forall_mem_ofFn_iff]
    decide +kernel
  · have opened := Tally.opens_run (batch_run true)
    rwa [show [batch true].flatMap Tally.ballots = [ballot, ballot] by decide +kernel] at opened
  · have first : reference hash (reducedNu 64) [ballot] =
        Function.update (fun _ => none) (5 : Fin (2 ^ 64)) (some (1, 7)) := by
      have onRecord : Book.revotingKey hash (fun _ : Fin (2 ^ 64) => none) (reducedNu 64 ballot.nu) =
          some ballot.revotingKeyOld := by decide +kernel
      rw [reference, List.foldl_cons, List.foldl_nil, Book.apply, if_pos onRecord]
      rfl
    rw [show [ballot, ballot] = [ballot] ++ [ballot] from rfl, reference_snoc, first, Book.apply,
      if_neg (by decide +kernel)]
    exact Book.count_single _ _ _

end DoubleCount

end Mootvote
