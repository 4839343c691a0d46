import Mootvote.Shared.SparsePath
import Mootvote.Smt.Represents

set_option autoImplicit false

namespace Mootvote.SmtCircom

open Shared SparseMerkle

variable {H : IdealHash Word} {depth : Nat} {S : Type} [NodeStore S] [LawfulNodeStore S]

structure Stores (H : IdealHash Word) (depth : Nat) (s : S) (t : SparseTree Word) : Prop where
  valid : Valid H s
  represents : Represents H (view s) t (LawfulNodeStore.root s)
  shaped : t.Shaped depth

/-- Reading the store from its root will give the tree, once what was written is flushed. -/
structure Staged (H : IdealHash Word) (depth : Nat) (s : S) (t : SparseTree Word) : Prop where
  valid : Valid H s
  represents : Represents H (written s) t (LawfulNodeStore.root s)
  shaped : t.Shaped depth

theorem Stores.commit {s : S} {t : SparseTree Word} (stores : Stores H depth s t) :
    t.commit H = some (LawfulNodeStore.root s) := stores.represents.commit

theorem Staged.commit {s : S} {t : SparseTree Word} (staged : Staged H depth s t) :
    t.commit H = some (LawfulNodeStore.root s) := staged.represents.commit

theorem Staged.mem {s : MemStore} {t : SparseTree Word} (staged : Staged H depth s t) : Stores H depth s t :=
  ⟨staged.valid, by rw [MemStore.view_eq_written]; exact staged.represents, staged.shaped⟩

theorem stores_new (H : IdealHash Word) (depth : Nat) : Stores H depth MemStore.new .empty where
  valid := ⟨(fun _ _ none => by cases none), (fun _ _ none => by cases none)⟩
  represents := rfl
  shaped := SparseTree.shaped_empty depth

namespace SparseMerkleTree

theorem setRoot_run {s : S} (valid : Valid H s) (r : Word) :
    ∃ s', setRoot r s = .ok (.ok (), s') ∧ Valid H s' ∧ LawfulNodeStore.root s' = r ∧
    written s' = written s := by
  obtain ⟨s', done, root, writes, reads⟩ := LawfulNodeStore.setRoot_eq s r valid.sound.zero
  refine ⟨s', by rw [setRoot, done], ⟨?_, ?_⟩, root, writes⟩
  · rw [writes]
    exact valid.sound
  · rw [writes, reads]
    exact valid.seen

variable {s : S} {t t' : SparseTree Word} {key val : Word}

omit [LawfulNodeStore S] in
theorem pathOf_run (bound : depth ≤ 256) (key : Word) (s : S) :
    pathOf depth key s = .ok (.ok (bitsFrom key 0 depth), s) := by
  rw [pathOf, if_pos bound, getPath_bitsFrom key bound, Exec.pure_run]

omit [LawfulNodeStore S] in
theorem pathOf_overruns (long : ¬depth ≤ 256) (key : Word) (s : S) :
    pathOf depth key s = .error .indexOutOfBounds := by
  rw [pathOf, if_neg long]
  rfl

omit [LawfulNodeStore S] in
theorem add_of_long (long : ¬depth ≤ 256) (key val : Word) (s : S) :
    add H depth key val s = .error .indexOutOfBounds :=
  Exec.bind_panic (pathOf_overruns long key s)

theorem update_of_long (long : ¬depth ≤ 256) (key val : Word) (s : S) :
    update H depth key val s = .error .indexOutOfBounds :=
  (Exec.bind_ok (root_run s)).trans (Exec.bind_panic (pathOf_overruns long key s))

theorem getProof_of_long (long : ¬depth ≤ 256) (key : Word) (s : S) :
    getProof depth key s = .error .indexOutOfBounds :=
  (Exec.bind_ok (root_run s)).trans (Exec.bind_panic (pathOf_overruns long key s))

theorem add_done {r : Word} (stores : Stores H depth s t) (bound : depth ≤ 256)
    (done : t.add key val depth 0 = some t') (hashed : t'.commit H = some r) :
    ∃ s', add H depth key val s = .ok (.ok (), s') ∧ Staged H depth s' t' ∧ LawfulNodeStore.root s' = r := by
  have builds := addLeaf_builds bound stores.valid stores.represents (Nat.zero_add depth) done
  obtain ⟨s₁, run, extends', below⟩ := builds.some hashed
  obtain ⟨s₂, set, valid, root, writes⟩ := setRoot_run extends'.valid r
  refine ⟨s₂, ?_, ⟨valid, by rwa [writes, root], stores.shaped.add done⟩, root⟩
  exact (Exec.bind_ok (pathOf_run bound key s)).trans
    ((Exec.bind_ok (root_run s)).trans ((Exec.bind_ok run).trans set))

theorem add_panics (stores : Stores H depth s t) (bound : depth ≤ 256)
    (done : t.add key val depth 0 = some t') (refused : t'.commit H = none) :
    add H depth key val s = .error .poseidonHash := by
  have builds := addLeaf_builds bound stores.valid stores.represents (Nat.zero_add depth) done
  exact (Exec.bind_ok (pathOf_run bound key s)).trans
    ((Exec.bind_ok (root_run s)).trans (Exec.bind_panic (builds.none refused)))

theorem add_present {old : Word} (stores : Stores H depth s t) (bound : depth ≤ 256)
    (stored : t.lookup key 0 = some old) : add H depth key val s = .ok (.error .alreadyPresent, s) := by
  have run : addLeaf H depth (.leaf key val) (bitsFrom key 0 depth) (LawfulNodeStore.root s) 0 s = _ :=
    addLeaf_present stores.represents stores.shaped.height stored
  exact (Exec.bind_ok (pathOf_run bound key s)).trans
    ((Exec.bind_ok (root_run s)).trans (Exec.bind_throw run))

theorem add_overruns (stores : Stores H depth s t) (bound : depth ≤ 256) (absent : t.lookup key 0 = none)
    (refused : t.add key val depth 0 = none) : add H depth key val s = .error .indexOutOfBounds := by
  have overruns := addLeaf_panics bound stores.represents (Nat.zero_add depth) absent refused
  exact (Exec.bind_ok (pathOf_run bound key s)).trans
    ((Exec.bind_ok (root_run s)).trans (Exec.bind_panic overruns))

theorem update_done {old r : Word} (stores : Stores H depth s t) (bound : depth ≤ 256)
    (done : t.set key val 0 = some (old, t')) (short : (t.sides key 0).length < depth)
    (hashed : t'.commit H = some r) :
    ∃ s', update H depth key val s = .ok (.ok old, s') ∧ Staged H depth s' t' ∧
    LawfulNodeStore.root s' = r := by
  obtain ⟨m, builds, loop⟩ := updateLoop_found [] bound stores.valid stores.represents
    (Nat.zero_add depth) rfl done short
  obtain ⟨s₁, run, extends', below⟩ := builds.some hashed
  obtain ⟨s₂, set, valid, root, writes⟩ := setRoot_run extends'.valid r
  refine ⟨s₂, ?_, ⟨valid, by rwa [writes, root], stores.shaped.set done⟩, root⟩
  refine (Exec.bind_ok (root_run s)).trans ((Exec.bind_ok (pathOf_run bound key s)).trans ?_)
  refine loop.trans ((Exec.bind_ok run).trans ?_)
  exact Exec.bind_ok set

theorem update_panics {old : Word} (stores : Stores H depth s t) (bound : depth ≤ 256)
    (done : t.set key val 0 = some (old, t')) (short : (t.sides key 0).length < depth)
    (refused : t'.commit H = none) : update H depth key val s = .error .poseidonHash := by
  obtain ⟨m, builds, loop⟩ := updateLoop_found [] bound stores.valid stores.represents
    (Nat.zero_add depth) rfl done short
  exact (Exec.bind_ok (root_run s)).trans ((Exec.bind_ok (pathOf_run bound key s)).trans
    (loop.trans (Exec.bind_panic (builds.none refused))))

theorem update_missing (stores : Stores H depth s t) (bound : depth ≤ 256)
    (missing : t.lookup key 0 = none ∨ depth ≤ (t.sides key 0).length) :
    update H depth key val s = .ok (.error .keyNotFound, s) := by
  have loop : updateLoop H depth key val (bitsFrom key 0 depth) [] (LawfulNodeStore.root s) s = _ :=
    updateLoop_missing [] stores.valid stores.represents missing
  exact (Exec.bind_ok (root_run s)).trans ((Exec.bind_ok (pathOf_run bound key s)).trans loop)

theorem of_add {s' : S} (stores : Stores H depth s t) (bound : depth ≤ 256)
    (run : add H depth key val s = .ok (.ok (), s')) :
    ∃ t', t.add key val depth 0 = some t' ∧ Staged H depth s' t' := by
  cases done : t.add key val depth 0 with
  | none =>
      cases found : t.lookup key 0 with
      | none => cases (add_overruns stores bound found done).symm.trans run
      | some old => cases (add_present stores bound found).symm.trans run
  | some t' =>
      cases hashed : t'.commit H with
      | none => cases (add_panics stores bound done hashed).symm.trans run
      | some r =>
          obtain ⟨s₁, added, staged, _⟩ := add_done stores bound done hashed
          cases added.symm.trans run
          exact ⟨t', rfl, staged⟩

theorem of_update {s' : S} {old : Word} (stores : Stores H depth s t) (bound : depth ≤ 256)
    (run : update H depth key val s = .ok (.ok old, s')) :
    ∃ t', t.set key val 0 = some (old, t') ∧ Staged H depth s' t' := by
  by_cases missing : t.lookup key 0 = none ∨ depth ≤ (t.sides key 0).length
  · cases (update_missing stores bound missing).symm.trans run
  · push Not at missing
    cases done : t.set key val 0 with
    | none => exact absurd (SparseTree.set_eq_none_iff.1 done) missing.1
    | some found =>
        obtain ⟨old', t'⟩ := found
        cases hashed : t'.commit H with
        | none => cases (update_panics stores bound done missing.2 hashed).symm.trans run
        | some r =>
            obtain ⟨s₁, updated, staged, _⟩ := update_done stores bound done missing.2 hashed
            cases updated.symm.trans run
            exact ⟨t', rfl, staged⟩

theorem add_of_inserts {opening : Opening Word} {newRoot : Word} (stores : Stores H depth s t)
    (bound : depth ≤ 256) (length : opening.siblings.length = depth)
    (inserted : opening.Inserts H (LawfulNodeStore.root s) key val newRoot) :
    ∃ s' t', add H depth key val s = .ok (.ok (), s') ∧ t.add key val depth 0 = some t' ∧
      Staged H depth s' t' ∧ LawfulNodeStore.root s' = newRoot := by
  obtain ⟨t', done, hashed⟩ := inserted.add stores.commit
  rw [length] at done
  obtain ⟨s', run, staged, root⟩ := add_done stores bound done hashed
  exact ⟨s', t', run, done, staged, root⟩

theorem update_of_updates {opening : Opening Word} {newRoot : Word} (stores : Stores H depth s t)
    (bound : depth ≤ 256) (length : opening.siblings.length = depth)
    (updated : opening.Updates H (LawfulNodeStore.root s) key val newRoot) :
    ∃ s' t', update H depth key val s = .ok (.ok opening.oldValue, s') ∧
      t.set key val 0 = some (opening.oldValue, t') ∧ Staged H depth s' t' ∧
      LawfulNodeStore.root s' = newRoot := by
  obtain ⟨t', done, hashed⟩ := updated.set stores.commit
  have short := updated.short stores.commit
  rw [length] at short
  obtain ⟨s', run, staged, root⟩ := update_done stores bound done short hashed
  exact ⟨s', t', run, done, staged, root⟩

theorem getProof_run (key : Word) (stores : Stores H depth s t) (bound : depth ≤ 256) (positive : 0 < depth) :
    ∃ hashes, List.Forall₂ (fun side h => SparseTree.commit H side = some h) (t.sides key 0) hashes ∧
      getProof depth key s = .ok (.ok (proofOf key (hashes ++ List.replicate (depth - hashes.length) 0)
        (if hashes.length < depth then t.slot key 0 else .empty)), s) := by
  obtain ⟨hashes, committed, loop⟩ := getProofLoop_run [] stores.valid stores.represents
    stores.shaped.height (Nat.zero_add depth) positive rfl
  exact ⟨hashes, committed, (Exec.bind_ok (root_run s)).trans
    ((Exec.bind_ok (pathOf_run bound key s)).trans loop)⟩

theorem getProof_state {s' : S} {p : CircomProof} (stores : Stores H depth s t) (bound : depth ≤ 256)
    (run : getProof depth key s = .ok (.ok p, s')) : 0 < depth ∧ s' = s := by
  have positive : 0 < depth := by
    rcases Nat.eq_zero_or_pos depth with rfl | positive
    · cases ((Exec.bind_ok (root_run s)).trans (Exec.bind_ok (pathOf_run bound key s))).symm.trans run
    · exact positive
  obtain ⟨hashes, _, proved⟩ := getProof_run key stores bound positive
  cases proved.symm.trans run
  exact ⟨positive, rfl⟩

theorem oldKey_of_member {s' : S} {p : CircomProof} (stores : Stores H depth s t) (bound : depth ≤ 256)
    (run : getProof depth key s = .ok (.ok p, s')) (member : p.membership = true) : p.oldKey = key := by
  obtain ⟨hashes, _, proved⟩ := getProof_run key stores bound (getProof_state stores bound run).1
  cases proved.symm.trans run
  cases ends : if hashes.length < depth then t.slot key 0 else .empty with
  | empty | node =>
      rw [ends] at member
      cases member
  | leaf k v =>
      rw [ends] at member
      exact of_decide_eq_true member

theorem lookup_of_member {s' : S} {p : CircomProof} (stores : Stores H depth s t) (bound : depth ≤ 256)
    (run : getProof depth key s = .ok (.ok p, s')) (member : p.membership = true) :
    t.lookup key 0 = some p.oldValue := by
  obtain ⟨hashes, _, proved⟩ := getProof_run key stores bound (getProof_state stores bound run).1
  cases proved.symm.trans run
  unfold SparseTree.lookup
  split_ifs at member ⊢ with short
  · cases ends : t.slot key 0 with
    | empty | node =>
        rw [ends] at member
        cases member
    | leaf k v =>
        rw [ends] at member
        have same : k = key := of_decide_eq_true member
        simp [proofOf, same]
  · cases member

theorem getLeaf_proofOf (key : Word) (siblings : List Word) (n : Nat) (t : SparseTree Word) :
    (proofOf key siblings (if n < depth then t.slot key 0 else .empty)).getLeaf =
      if n < depth then t.lookup key 0 else none := by
  split_ifs with short
  · unfold SparseTree.lookup
    cases t.slot key 0 with
    | empty | node => rfl
    | leaf k v => by_cases same : k = key <;> simp [proofOf, CircomProof.getLeaf, same]
  · rfl

end SparseMerkleTree

end Mootvote.SmtCircom
