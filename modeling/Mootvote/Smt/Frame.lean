import Mootvote.Smt.Operations

set_option autoImplicit false

namespace Mootvote.SmtCircom

open Shared SparseMerkle

/-- Every run of the computation relates the store it meets to the store it leaves. -/
def Exec.Keeps {S E A : Type} (R : S → S → Prop) (m : Exec S E A) : Prop :=
  ∀ s r s', m s = .ok (r, s') → R s s'

namespace SparseMerkleTree

variable {S : Type} [NodeStore S] {H : IdealHash Word} {depth : Nat}

structure Framed (H : IdealHash Word) (R : S → S → Prop) : Prop where
  refl : ∀ s, R s s
  trans : ∀ {s s' s''}, R s s' → R s' s'' → R s s''
  put : ∀ n, (put (S := S) H n).Keeps R
  setRoot : ∀ r, (setRoot (S := S) r).Keeps R

namespace Framed

variable {R : S → S → Prop} {A B : Type}

theorem of_unchanged (framed : Framed H R) {m : Run S A} (unchanged : ∀ s r s', m s = .ok (r, s') → s' = s) :
    m.Keeps R := by
  intro s r s' run
  rw [unchanged s r s' run]
  exact framed.refl s

theorem pure (framed : Framed H R) (a : A) : (Pure.pure a : Run S A).Keeps R :=
  framed.of_unchanged fun s r s' run => by cases run; rfl

theorem throw (framed : Framed H R) (e : SmtError (NodeStore.Error S)) : (Exec.throw e : Run S A).Keeps R :=
  framed.of_unchanged fun s r s' run => by cases run; rfl

theorem panic (framed : Framed H R) (p : Panic) : (Exec.panic p : Run S A).Keeps R :=
  framed.of_unchanged fun s r s' run => by cases run

theorem bind (framed : Framed H R) {m : Run S A} {f : A → Run S B} (first : m.Keeps R)
    (rest : ∀ a, (f a).Keeps R) :
    Exec.Keeps R (m >>= f) := by
  intro s r s' run
  cases begun : m s with
  | error p => cases (Exec.bind_panic begun).symm.trans run
  | ok result =>
      obtain ⟨result, s₁⟩ := result
      cases result with
      | error e =>
          cases (Exec.bind_throw begun).symm.trans run
          exact first s _ s' begun
      | ok a =>
          have continued := (Exec.bind_ok begun).symm.trans run
          exact framed.trans (first s _ s₁ begun) (rest a s₁ r s' continued)

theorem poseidonHash (framed : Framed H R) (inputs : List Word) :
    (poseidonHash (S := S) H inputs).Keeps R := by
  unfold SparseMerkleTree.poseidonHash
  split
  · exact framed.panic _
  · exact framed.pure _

theorem get (framed : Framed H R) (k : Word) : (get (S := S) k).Keeps R :=
  framed.of_unchanged fun s r s' run => by
    unfold SparseMerkleTree.get at run
    split at run <;> cases run
    rfl

theorem root (framed : Framed H R) : (root (S := S)).Keeps R :=
  framed.of_unchanged fun s r s' run => by
    unfold SparseMerkleTree.root at run
    split at run <;> cases run <;> rfl

theorem pathOf (framed : Framed H R) (key : Word) : (pathOf (S := S) depth key).Keeps R := by
  unfold SparseMerkleTree.pathOf
  split
  · exact framed.pure _
  · exact framed.panic _

theorem pushLeaf (framed : Framed H R) (newLeaf oldLeaf : Node) (pathNew pathOld : List Bool) :
    (pushLeaf (S := S) H newLeaf oldLeaf pathNew pathOld).Keeps R := by
  induction pathNew generalizing pathOld with
  | nil => exact framed.panic _
  | cons new pathNew ih =>
      cases pathOld with
      | nil => exact framed.panic _
      | cons old pathOld =>
          unfold SparseMerkleTree.pushLeaf
          split
          · exact framed.bind (ih pathOld) fun _ => framed.put _
          · cases oldLeaf with
            | middle => exact framed.panic _
            | leaf oldK oldV =>
                refine framed.bind (framed.put _) fun newLeafKey => ?_
                exact framed.bind (framed.poseidonHash _) fun oldLeafKey => framed.put _

theorem addLeaf (framed : Framed H R) (newLeaf : Node) (path : List Bool) (cur : Word) (lvl : Nat) :
    (addLeaf (S := S) H depth newLeaf path cur lvl).Keeps R := by
  have meets (newK oldK oldV : Word) (path pathOld : List Bool) : Exec.Keeps R
      (if newK = oldK then .throw .alreadyPresent
      else SparseMerkleTree.pushLeaf (S := S) H newLeaf (.leaf oldK oldV) path pathOld) := by
    split
    · exact framed.throw _
    · exact framed.pushLeaf _ _ _ _
  induction path generalizing cur lvl with
  | nil =>
      unfold SparseMerkleTree.addLeaf
      refine framed.bind (framed.get cur) fun node => ?_
      rcases node with _ | ⟨l, r⟩ | ⟨oldK, oldV⟩
      · exact framed.put _
      · exact framed.panic _
      · cases newLeaf with
        | middle => exact framed.panic _
        | leaf newK newV => exact meets newK oldK oldV _ _
  | cons goRight path ih =>
      unfold SparseMerkleTree.addLeaf
      refine framed.bind (framed.get cur) fun node => ?_
      rcases node with _ | ⟨l, r⟩ | ⟨oldK, oldV⟩
      · exact framed.put _
      · dsimp only
        split
        · exact framed.bind (ih r (lvl + 1)) fun next => framed.put _
        · exact framed.bind (ih l (lvl + 1)) fun next => framed.put _
      · cases newLeaf with
        | middle => exact framed.panic _
        | leaf newK newV => exact meets newK oldK oldV _ _

theorem add (framed : Framed H R) (key val : Word) : (add (S := S) H depth key val).Keeps R := by
  refine framed.bind (framed.pathOf key) fun pathNew => ?_
  refine framed.bind framed.root fun curKey => ?_
  exact framed.bind (framed.addLeaf _ _ _ _) fun newRoot => framed.setRoot newRoot

theorem rebuild (framed : Framed H R) (above : List (Word × Bool)) (nodeH : Word) :
    (rebuild (S := S) H above nodeH).Keeps R := by
  induction above generalizing nodeH with
  | nil => exact framed.pure _
  | cons entry above ih => exact framed.bind (framed.put _) fun nodeH => ih nodeH

theorem updateLoop (framed : Framed H R) (key val : Word) (path : List Bool) (siblings : List Word)
    (cur : Word) :
    (updateLoop (S := S) H depth key val path siblings cur).Keeps R := by
  induction path generalizing siblings cur with
  | nil => exact framed.throw _
  | cons goRight path ih =>
      unfold SparseMerkleTree.updateLoop
      refine framed.bind (framed.get cur) fun node => ?_
      rcases node with _ | ⟨l, r⟩ | ⟨k, v⟩
      · exact framed.throw _
      · dsimp only
        split
        · exact ih _ r
        · exact ih _ l
      · dsimp only
        split
        · exact framed.throw _
        · refine framed.bind (framed.put _) fun nodeH => ?_
          refine framed.bind (framed.rebuild _ nodeH) fun root => ?_
          exact framed.bind (framed.setRoot root) fun _ => framed.pure v

theorem update (framed : Framed H R) (key val : Word) : (update (S := S) H depth key val).Keeps R := by
  refine framed.bind framed.root fun cur => ?_
  refine framed.bind (framed.pathOf key) fun path => ?_
  exact framed.updateLoop _ _ _ _ _

theorem addOrUpdate (framed : Framed H R) (key val : Word) :
    (addOrUpdate (S := S) H depth key val).Keeps R := by
  intro s r s' run
  unfold SparseMerkleTree.addOrUpdate at run
  split at run
  next present added =>
    have first : (SparseMerkleTree.update (S := S) H depth key val).Keeps R := framed.update key val
    have updated := framed.bind first fun _ => framed.pure ()
    exact framed.trans (framed.add key val s _ _ added) (updated _ r s' run)
  next => exact framed.add key val s r s' run

theorem getProofLoop (framed : Framed H R) (key : Word) (path : List Bool) (i : Nat) (siblings : List Word)
    (cur : Word) : (getProofLoop (S := S) depth key path i siblings cur).Keeps R := by
  induction path generalizing i siblings cur with
  | nil => exact framed.panic _
  | cons goRight path ih =>
      unfold SparseMerkleTree.getProofLoop
      refine framed.bind (framed.get cur) fun node => ?_
      rcases node with _ | ⟨l, r⟩ | ⟨k, v⟩
      · exact framed.pure _
      · dsimp only
        split
        · exact framed.pure _
        · exact ih _ _ _
      · exact framed.pure _

theorem getProof (framed : Framed H R) (key : Word) : (getProof (S := S) depth key).Keeps R := by
  refine framed.bind framed.root fun cur => ?_
  refine framed.bind (framed.pathOf key) fun path => ?_
  exact framed.getProofLoop _ _ _ _ _

theorem valid [LawfulNodeStore S] (H : IdealHash Word) : Framed H fun s s' : S => Valid H s → Valid H s' where
  refl _ := id
  trans first second valid := second (first valid)
  put n := by
    intro s r s' run valid
    cases key : n.key H with
    | none => cases (put_panics key s).symm.trans run
    | some k =>
        obtain ⟨s₁, done, extends', _⟩ := put_stores key valid
        cases done.symm.trans run
        exact extends'.valid
  setRoot root := by
    intro s r s' run valid
    obtain ⟨s₁, done, valid', _⟩ := setRoot_run valid root
    cases done.symm.trans run
    exact valid'

end Framed

end SparseMerkleTree

namespace RocksStore

/-- The store's root is the one its database will hold once the batch is written. -/
def Flushed (s : RocksStore) : Prop := storedRoot (s.db.write s.batch) s.cf s.keyPrefix = s.cachedRoot

/-- A store that an operation on the other one leaves: it staged writes under its own prefix. -/
structure Follows (s s' : RocksStore) : Prop where
  db : s'.db = s.db
  cf : s'.cf = s.cf
  keyPrefix : s'.keyPrefix = s.keyPrefix
  batch : ∃ own, s'.batch = s.batch ++ own ∧ ∀ e ∈ own, e.1 = s.cf ∧ ∃ k, e.2.1 = prefixKey s.keyPrefix k
  flushed : s.Flushed → s'.Flushed

theorem Follows.refl (s : RocksStore) : Follows s s := ⟨rfl, rfl, rfl, ⟨[], by simp, by simp⟩, id⟩

theorem Follows.trans {s s' s'' : RocksStore} (first : Follows s s') (second : Follows s' s'') :
    Follows s s'' where
  db := second.db.trans first.db
  cf := second.cf.trans first.cf
  keyPrefix := second.keyPrefix.trans first.keyPrefix
  batch := by
    obtain ⟨own, batch, inside⟩ := first.batch
    obtain ⟨own', batch', inside'⟩ := second.batch
    refine ⟨own ++ own', by rw [batch', batch, List.append_assoc], fun e member => ?_⟩
    rcases List.mem_append.1 member with early | late
    · exact inside e early
    · have place := inside' e late
      rwa [first.cf, first.keyPrefix] at place
  flushed flushed := second.flushed (first.flushed flushed)

theorem storedRoot_put (db : DB) (cf : ColumnFamily) (keyPrefix : List UInt8) (k : Word)
    (value : List UInt8) :
    storedRoot (db.put cf (prefixKey keyPrefix k) value) cf keyPrefix =
      if k = 0 then Word.ofBytes value else storedRoot db cf keyPrefix := by
  unfold storedRoot
  by_cases zero : k = 0
  · simp [DB.put, zero]
  · have keys : prefixKey keyPrefix 0 ≠ prefixKey keyPrefix k :=
      fun same => zero (prefixKey_injective same).symm
    simp only [DB.put, Function.update_self, Function.update_of_ne keys, if_neg zero]

variable {H : IdealHash Word}

theorem framed (H : IdealHash Word) : SparseMerkleTree.Framed H Follows where
  refl := Follows.refl
  trans := Follows.trans
  put n := by
    intro s r s' run
    have hashed := SparseMerkleTree.nodeKey_run (H := H) n s
    cases key : n.key H with
    | none => cases (SparseMerkleTree.put_panics key s).symm.trans run
    | some k =>
        rw [key] at hashed
        have nonzero : k ≠ 0 := fun zero => n.key_ne_zero (zero ▸ key)
        have done := (Exec.bind_ok hashed).symm.trans run
        cases done
        refine ⟨rfl, rfl, rfl, ⟨_, rfl, by simp⟩, fun flushed => ?_⟩
        unfold Flushed at flushed ⊢
        rw [DB.write_append]
        refine (storedRoot_put _ _ _ _ _).trans ?_
        rw [if_neg nonzero]
        exact flushed
  setRoot r := by
    intro s result s' run
    cases run
    refine ⟨rfl, rfl, rfl, ⟨_, rfl, by simp⟩, fun _ => ?_⟩
    unfold Flushed
    rw [DB.write_append]
    refine (storedRoot_put _ _ _ _ _).trans ?_
    rw [if_pos rfl, Word.ofBytes_bytes]

def Same (cf : ColumnFamily) (keyPrefix : List UInt8) (db db' : DB) : Prop :=
  ∀ k, db' cf (prefixKey keyPrefix k) = db cf (prefixKey keyPrefix k)

namespace Same

variable {cf : ColumnFamily} {keyPrefix : List UInt8} {db db' : DB}

theorem nodes (same : Same cf keyPrefix db db') :
    nodes db' cf keyPrefix = RocksStore.nodes db cf keyPrefix := by
  funext k
  rw [RocksStore.nodes, same k]
  rfl

theorem storedRoot (same : Same cf keyPrefix db db') :
    storedRoot db' cf keyPrefix = RocksStore.storedRoot db cf keyPrefix := by
  rw [RocksStore.storedRoot, same 0]
  rfl

theorem write {cf' : ColumnFamily} {keyPrefix' : List UInt8} {batch : WriteBatch} (db : DB)
    (length : keyPrefix'.length = keyPrefix.length) (apart : cf' = cf → keyPrefix' ≠ keyPrefix)
    (inside : ∀ e ∈ batch, e.1 = cf' ∧ ∃ k, e.2.1 = prefixKey keyPrefix' k) : Same cf keyPrefix db
    (db.write batch) := by
  induction batch generalizing db with
  | nil => exact fun _ => rfl
  | cons e batch ih =>
      have later := ih (db.put e.1 e.2.1 e.2.2) fun e member => inside e (List.mem_cons_of_mem _ member)
      obtain ⟨isCf, k', isKey⟩ := inside e List.mem_cons_self
      intro k
      refine (later k).trans ?_
      by_cases shared : cf' = cf
      · have keys : prefixKey keyPrefix k ≠ prefixKey keyPrefix' k' := fun equal =>
          apart shared (List.append_inj_left equal length.symm).symm
        rw [DB.put, isCf, shared, Function.update_self, isKey, Function.update_of_ne keys]
      · rw [DB.put, isCf, Function.update_of_ne (Ne.symm shared)]

end Same

variable {depth : Nat} {t : SparseTree Word}

theorem reopened {s : RocksStore} {db : DB} (staged : Staged H depth s t) (flushed : s.Flushed)
    (same : Same s.cf s.keyPrefix (s.db.write s.batch) db) :
      Stores H depth (new db s.cf [] s.keyPrefix) t := by
  have place : nodes db s.cf s.keyPrefix = written s := same.nodes
  have root : storedRoot db s.cf s.keyPrefix = s.cachedRoot := same.storedRoot.trans flushed
  refine ⟨⟨?_, fun _ _ => id⟩, ?_, staged.shaped⟩
  · rw [show written (new db s.cf [] s.keyPrefix) = written s from place]
    exact staged.valid.sound
  · rw [show view (new db s.cf [] s.keyPrefix) = written s from place,
      show LawfulNodeStore.root (new db s.cf [] s.keyPrefix) = LawfulNodeStore.root s from root]
    exact staged.represents

/-- A store that others of its database leave alone keeps its tree. -/
theorem kept {db db' : DB} {cf : ColumnFamily} {keyPrefix : List UInt8}
    (stores : Stores H depth (new db cf [] keyPrefix) t) (same : Same cf keyPrefix db db') :
    Stores H depth (new db' cf [] keyPrefix) t := by
  refine ⟨⟨?_, fun _ _ => id⟩, ?_, stores.shaped⟩
  · rw [show written (new db' cf [] keyPrefix) = written (new db cf [] keyPrefix) from same.nodes]
    exact stores.valid.sound
  · rw [show view (new db' cf [] keyPrefix) = view (new db cf [] keyPrefix) from same.nodes,
      show LawfulNodeStore.root (new db' cf [] keyPrefix) = LawfulNodeStore.root (new db cf [] keyPrefix) from
        same.storedRoot]
    exact stores.represents

theorem shared {db : DB} {cf : ColumnFamily} {keyPrefix : List UInt8} {batch : WriteBatch}
    (stores : Stores H depth (new db cf [] keyPrefix) t) (same : Same cf keyPrefix db (db.write batch)) :
    Stores H depth (new db cf batch keyPrefix) t := by
  have place : written (new db cf batch keyPrefix) = view (new db cf batch keyPrefix) := same.nodes
  refine ⟨⟨?_, fun k n found => by rwa [place]⟩, stores.represents, stores.shaped⟩
  rw [place]
  exact stores.valid.sound

theorem flushed_new (db : DB) (cf : ColumnFamily) (keyPrefix : List UInt8) :
    (new db cf [] keyPrefix).Flushed := rfl

theorem flushed_shared {db : DB} {cf : ColumnFamily} {keyPrefix : List UInt8} {batch : WriteBatch}
    (same : Same cf keyPrefix db (db.write batch)) : (new db cf batch keyPrefix).Flushed := same.storedRoot

theorem stores_new (H : IdealHash Word) (depth : Nat) (cf : ColumnFamily) (keyPrefix : List UInt8) :
    Stores H depth (new (fun _ _ => none) cf [] keyPrefix) .empty where
  valid := ⟨(fun _ _ none => by cases none), (fun _ _ none => by cases none)⟩
  represents := rfl
  shaped := SparseTree.shaped_empty depth

end RocksStore

end Mootvote.SmtCircom
