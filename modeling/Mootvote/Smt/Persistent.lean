import Mootvote.Smt.FiniteMap
import Mootvote.Smt.Frame

set_option autoImplicit false

namespace Mootvote.SmtCircom

open Shared SparseMerkle

inductive TreeCall where
  | add (key val : Word)
  | update (key val : Word)
  | addOrUpdate (key val : Word)
  | getProof (key : Word)
  | root

inductive TreeReply where
  | done
  | value (old : Word)
  | proof (p : CircomProof)
  | root (r : Word)
deriving DecidableEq

def TreeCall.exec {S : Type} [NodeStore S] (H : IdealHash Word) (depth : Nat) :
    TreeCall → SparseMerkleTree.Run S TreeReply
  | .add key val => do
      SparseMerkleTree.add H depth key val
      return .done
  | .update key val => do
      let old ← SparseMerkleTree.update H depth key val
      return .value old
  | .addOrUpdate key val => do
      SparseMerkleTree.addOrUpdate H depth key val
      return .done
  | .getProof key => do
      let proof ← SparseMerkleTree.getProof depth key
      return .proof proof
  | .root => do
      let r ← SparseMerkleTree.root
      return .root r

structure Outcome where
  result : Except Panic (Except (SmtError Empty) TreeReply)
  root : Word
deriving DecidableEq

def MemStore.outcomes (H : IdealHash Word) (depth : Nat) : List TreeCall → MemStore → List Outcome
  | [], _ => []
  | c :: cs, s =>
      match c.exec H depth s with
      | .error p => [{ result := .error p, root := s.root }]
      | .ok (a, s') => { result := .ok a, root := s'.root } :: outcomes H depth cs s'

/-- What happens to a database store: calls on its tree, `db.write(batch.take())`, and `RocksStore::new` again. -/
inductive Event where
  | call (c : TreeCall)
  | flush
  | reopen

def Event.calls (events : List Event) : List TreeCall :=
  events.filterMap fun
    | .call c => some c
    | _ => none

namespace RocksStore

def flush (s : RocksStore) : RocksStore := { s with db := s.db.write s.batch, batch := [] }

def reopen (s : RocksStore) : RocksStore := new s.db s.cf s.batch s.keyPrefix

variable (H : IdealHash Word) (depth : Nat)

def outcomes : List Event → RocksStore → List Outcome
  | [], _ => []
  | .flush :: es, s => outcomes es s.flush
  | .reopen :: es, s => outcomes es s.reopen
  | .call c :: es, s =>
      match c.exec H depth s with
      | .error p => [{ result := .error p, root := s.cachedRoot }]
      | .ok (a, s') => { result := .ok a, root := s'.cachedRoot } :: outcomes es s'

def Throughout (P : Event → RocksStore → Prop) : List Event → RocksStore → Prop
  | [], _ => True
  | .flush :: es, s => P .flush s ∧ Throughout P es s.flush
  | .reopen :: es, s => P .reopen s ∧ Throughout P es s.reopen
  | .call c :: es, s => P (.call c) s ∧
      match c.exec H depth s with
      | .error _ => True
      | .ok (_, s') => Throughout P es s'

-- The tree that flushing would show is the tree that reads already see.
def Shows (s : RocksStore) : Prop :=
  ∀ t, Represents H (written s) t s.cachedRoot → Represents H (view s) t s.cachedRoot

end RocksStore

namespace Event

/-- The store is opened again when nothing is staged. -/
def AfterFlush : Event → RocksStore → Prop
  | .reopen, s => s.batch = []
  | _, _ => True

/-- No call but `root` runs while nodes of the tree are staged only. -/
def Reads (H : IdealHash Word) : Event → RocksStore → Prop
  | .call .root, _ => True
  | .call _, s => s.Shows H
  | _, _ => True

/-- A flush stands between any two calls other than `root`; `staged` says whether one is due. -/
def spaced : Bool → List Event → Bool
  | _, [] => true
  | _, .flush :: es => spaced false es
  | staged, .reopen :: es => !staged && spaced staged es
  | staged, .call .root :: es => spaced staged es
  | staged, .call _ :: es => !staged && spaced true es

end Event

variable {H : IdealHash Word} {depth : Nat}

def Alike (H : IdealHash Word) (depth : Nat) {A : Type} :
    Except Panic (Except (SmtError Empty) A × RocksStore) → Except Panic
    (Except (SmtError Empty) A × MemStore) → Prop
  | .error p, .error p' => p = p'
  | .ok (r, s), .ok (r', m) => r = r' ∧ ∃ t, Staged H depth s t ∧ Stores H depth m t
  | _, _ => False

namespace Alike

variable {A B : Type} {left : SparseMerkleTree.Run RocksStore A} {right : SparseMerkleTree.Run MemStore A}
  {s s' : RocksStore} {m m' : MemStore} {t : SparseTree Word}

theorem panics {p : Panic} (first : left s = .error p) (second : right m = .error p) :
    Alike H depth (left s) (right m) := by
  rw [first, second]
  exact rfl

theorem ends {r : Except (SmtError Empty) A} (first : left s = .ok (r, s')) (second : right m = .ok (r, m'))
    (staged : Staged H depth s' t) (stores : Stores H depth m' t) : Alike H depth (left s) (right m) := by
  rw [first, second]
  exact ⟨rfl, t, staged, stores⟩

theorem unpack (alike : Alike H depth (left s) (right m)) :
    (∃ p, left s = .error p ∧ right m = .error p) ∨
      ∃ r s' m' t, left s = .ok (r, s') ∧ right m = .ok (r, m') ∧ Staged H depth s' t ∧
      Stores H depth m' t := by
  cases first : left s with
  | error p =>
      cases second : right m with
      | error p' =>
          rw [first, second] at alike
          exact .inl ⟨p, rfl, by rw [show p = p' from alike]⟩
      | ok result' =>
          rw [first, second] at alike
          exact alike.elim
  | ok result =>
      cases second : right m with
      | error p' =>
          rw [first, second] at alike
          exact alike.elim
      | ok result' =>
          rw [first, second] at alike
          obtain ⟨same, t, staged, stores⟩ := alike
          exact .inr ⟨result.1, result.2, result'.2, t, rfl, by rw [same], staged, stores⟩

theorem reply {f : A → B} (alike : Alike H depth (left s) (right m)) :
    Alike H depth ((left >>= fun a => Pure.pure (f a)) s) ((right >>= fun a => Pure.pure (f a)) m) := by
  rcases alike.unpack with ⟨p, first, second⟩ | ⟨r, s', m', t, first, second, staged, stores⟩
  · exact panics (Exec.bind_panic first) (Exec.bind_panic second)
  · cases r with
    | error e => exact ends (Exec.bind_throw first) (Exec.bind_throw second) staged stores
    | ok a => exact ends (Exec.bind_ok first) (Exec.bind_ok second) staged stores

theorem root (staged : Staged H depth s t) (stores : Stores H depth m t) :
    Alike H depth (SparseMerkleTree.root s) (SparseMerkleTree.root m) := by
  have same : LawfulNodeStore.root s = LawfulNodeStore.root m :=
    Option.some.inj (staged.commit.symm.trans stores.commit)
  have run := SparseMerkleTree.root_run s
  rw [same] at run
  exact ends run (SparseMerkleTree.root_run m) staged stores

section operations

variable {key val : Word} (first : Stores H depth s t) (second : Stores H depth m t)

theorem unchanged_of_present {S : Type} [NodeStore S] [LawfulNodeStore S] {s s' : S}
    (stores : Stores H depth s t)
    (added : SparseMerkleTree.add H depth key val s = .ok (.error .alreadyPresent, s')) : s' = s := by
  have bound : depth ≤ 256 := by
    by_contra long
    cases (SparseMerkleTree.add_of_long long key val s).symm.trans added
  cases found : t.lookup key 0 with
  | some old =>
      cases (SparseMerkleTree.add_present stores bound found).symm.trans added
      rfl
  | none =>
      cases done : t.add key val depth 0 with
      | none => cases (SparseMerkleTree.add_overruns stores bound found done).symm.trans added
      | some t' =>
          cases hashed : t'.commit H with
          | none => cases (SparseMerkleTree.add_panics stores bound done hashed).symm.trans added
          | some r =>
              obtain ⟨s₁, run, _⟩ := SparseMerkleTree.add_done stores bound done hashed
              cases run.symm.trans added

include first in
theorem shown : Staged H depth s t := ⟨first.valid, first.represents.mono first.valid.seen, first.shaped⟩

include first second

theorem add : Alike H depth (SparseMerkleTree.add H depth key val s)
    (SparseMerkleTree.add H depth key val m) := by
  by_cases bound : depth ≤ 256
  · cases done : t.add key val depth 0 with
    | none =>
        cases found : t.lookup key 0 with
        | none =>
            exact panics (SparseMerkleTree.add_overruns first bound found done)
              (SparseMerkleTree.add_overruns second bound found done)
        | some old =>
            exact ends (SparseMerkleTree.add_present first bound found)
              (SparseMerkleTree.add_present second bound found) (shown first) second
    | some t' =>
        cases hashed : t'.commit H with
        | none =>
            exact panics (SparseMerkleTree.add_panics first bound done hashed)
              (SparseMerkleTree.add_panics second bound done hashed)
        | some r =>
            obtain ⟨s', added, staged, _⟩ := SparseMerkleTree.add_done first bound done hashed
            obtain ⟨m', added', staged', _⟩ := SparseMerkleTree.add_done second bound done hashed
            exact ends added added' staged staged'.mem
  · exact panics (SparseMerkleTree.add_of_long bound key val s) (SparseMerkleTree.add_of_long bound key val m)

theorem update :
    Alike H depth (SparseMerkleTree.update H depth key val s)
    (SparseMerkleTree.update H depth key val m) := by
  by_cases bound : depth ≤ 256
  · by_cases missing : t.lookup key 0 = none ∨ depth ≤ (t.sides key 0).length
    · exact ends (SparseMerkleTree.update_missing first bound missing)
        (SparseMerkleTree.update_missing second bound missing) (shown first) second
    · push Not at missing
      cases done : t.set key val 0 with
      | none => exact absurd (SparseTree.set_eq_none_iff.1 done) missing.1
      | some found =>
          obtain ⟨old, t'⟩ := found
          cases hashed : t'.commit H with
          | none =>
              exact panics (SparseMerkleTree.update_panics first bound done missing.2 hashed)
                (SparseMerkleTree.update_panics second bound done missing.2 hashed)
          | some r =>
              obtain ⟨s', updated, staged, _⟩ := SparseMerkleTree.update_done first bound done
                missing.2 hashed
              obtain ⟨m', updated', staged', _⟩ := SparseMerkleTree.update_done second bound done
                missing.2 hashed
              exact ends updated updated' staged staged'.mem
  · exact panics (SparseMerkleTree.update_of_long bound key val s)
      (SparseMerkleTree.update_of_long bound key val m)

theorem addOrUpdate :
    Alike H depth (SparseMerkleTree.addOrUpdate H depth key val s)
    (SparseMerkleTree.addOrUpdate H depth key val m) := by
  rcases (add first second : Alike H depth (SparseMerkleTree.add H depth key val s) _).unpack with
    ⟨p, added, added'⟩ | ⟨r, s', m', t', added, added', staged, stores⟩
  · exact panics (addOrUpdate_of_add added (by simp)) (addOrUpdate_of_add added' (by simp))
  · by_cases present : r = .error .alreadyPresent
    · subst present
      cases unchanged_of_present first added
      cases unchanged_of_present second added'
      have again := addOrUpdate_of_present added
      have again' := addOrUpdate_of_present added'
      rw [again, again']
      exact (update first second).reply
    · exact ends (addOrUpdate_of_add added fun _ same => present (by cases same; rfl))
        (addOrUpdate_of_add added' fun _ same => present (by cases same; rfl)) staged stores

theorem getProof : Alike H depth (SparseMerkleTree.getProof depth key s)
    (SparseMerkleTree.getProof depth key m) := by
  by_cases bound : depth ≤ 256
  · by_cases positive : 0 < depth
    · obtain ⟨hashes, committed, run⟩ := SparseMerkleTree.getProof_run key first bound positive
      obtain ⟨hashes', committed', run'⟩ := SparseMerkleTree.getProof_run key second bound positive
      have same : hashes' = hashes := List.right_unique_forall₂' (fun side h h' hashed hashed' =>
        Option.some.inj (hashed.symm.trans hashed')) committed' committed
      subst same
      exact ends run run' (shown first) second
    · have none : depth = 0 := by omega
      subst none
      have unreachable {S : Type} [NodeStore S] [LawfulNodeStore S] (s : S) :
          SparseMerkleTree.getProof 0 key s = .error .unreachable :=
        (Exec.bind_ok (SparseMerkleTree.root_run s)).trans
          (Exec.bind_ok (SparseMerkleTree.pathOf_run bound key s))
      exact panics (unreachable s) (unreachable m)
  · exact panics (SparseMerkleTree.getProof_of_long bound key s) (SparseMerkleTree.getProof_of_long bound key m)

theorem exec (c : TreeCall) : Alike H depth (c.exec H depth s) (c.exec H depth m) := by
  cases c with
  | add key val => exact (add first second).reply
  | update key val => exact (update first second).reply
  | addOrUpdate key val => exact (addOrUpdate first second).reply
  | getProof key => exact (getProof first second).reply
  | root => exact (root (shown first) second).reply

end operations

end Alike

theorem TreeCall.keeps {S : Type} [NodeStore S] {R : S → S → Prop} (framed : SparseMerkleTree.Framed H R)
    (c : TreeCall) : (c.exec (S := S) H depth).Keeps R := by
  cases c with
  | add key val => exact framed.bind (framed.add key val) fun _ => framed.pure _
  | update key val => exact framed.bind (framed.update key val) fun _ => framed.pure _
  | addOrUpdate key val => exact framed.bind (framed.addOrUpdate key val) fun _ => framed.pure _
  | getProof key => exact framed.bind (framed.getProof key) fun _ => framed.pure _
  | root => exact framed.bind framed.root fun _ => framed.pure _

namespace RocksStore

structure Mirrors (H : IdealHash Word) (depth : Nat) (s : RocksStore) (m : MemStore)
    (t : SparseTree Word) : Prop where
  staged : Staged H depth s t
  stores : Stores H depth m t
  flushed : s.Flushed

variable {s : RocksStore} {m : MemStore} {t : SparseTree Word}

theorem shows_of_flushed (empty : s.batch = []) : s.Shows H := by
  intro t represents
  have same : written s = view s := by
    change nodes (s.db.write s.batch) s.cf s.keyPrefix = nodes s.db s.cf s.keyPrefix
    rw [empty]
    rfl
  rwa [same] at represents

namespace Mirrors

theorem root (mirrors : Mirrors H depth s m t) : s.cachedRoot = m.root :=
  Option.some.inj (mirrors.staged.commit.symm.trans mirrors.stores.commit)

theorem flush (mirrors : Mirrors H depth s m t) : Mirrors H depth s.flush m t where
  staged := ⟨⟨mirrors.staged.valid.sound, fun _ _ => id⟩, mirrors.staged.represents, mirrors.staged.shaped⟩
  stores := mirrors.stores
  flushed := mirrors.flushed

theorem reopen (mirrors : Mirrors H depth s m t) (empty : s.batch = []) : Mirrors H depth s.reopen m t := by
  have same : s.reopen = s := by
    have root := mirrors.flushed
    unfold Flushed at root
    rw [empty] at root
    unfold RocksStore.reopen new
    rw [show storedRoot s.db s.cf s.keyPrefix = s.cachedRoot from root]
  rwa [same]

theorem call (mirrors : Mirrors H depth s m t) (c : TreeCall) (reads : (Event.call c).Reads H s) :
    (∃ p, c.exec H depth s = .error p ∧ c.exec H depth m = .error p) ∨
      ∃ r s' m' t', c.exec H depth s = .ok (r, s') ∧ c.exec H depth m = .ok (r, m') ∧
      Mirrors H depth s' m' t' := by
  have alike : Alike H depth (c.exec H depth s) (c.exec H depth m) := by
    cases c with
    | root => exact (Alike.root mirrors.staged mirrors.stores).reply
    | _ =>
      exact Alike.exec ⟨mirrors.staged.valid, reads t mirrors.staged.represents,
        mirrors.staged.shaped⟩ mirrors.stores _
  rcases alike.unpack with panics | ⟨r, s', m', t', run, run', staged, stores⟩
  · exact .inl panics
  · exact .inr ⟨r, s', m', t', run, run', staged, stores,
      (c.keeps (framed H) s r s' run).flushed mirrors.flushed⟩

theorem outcomes_eq {events : List Event} (mirrors : Mirrors H depth s m t)
    (meets : Throughout H depth (fun e s => e.AfterFlush s ∧ e.Reads H s) events s) :
    outcomes H depth events s = m.outcomes H depth (Event.calls events) := by
  induction events generalizing s m t with
  | nil => rfl
  | cons e events ih =>
      cases e with
      | flush => exact ih mirrors.flush meets.2
      | reopen => exact ih (mirrors.reopen meets.1.1) meets.2
      | call c =>
          obtain ⟨⟨_, shows⟩, later⟩ := meets
          change _ = m.outcomes H depth (c :: Event.calls events)
          rcases mirrors.call c shows with ⟨p, run, run'⟩ | ⟨r, s', m', t', run, run', mirrors'⟩
          · rw [outcomes, MemStore.outcomes, run, run']
            dsimp only
            rw [mirrors.root]
          · rw [outcomes, MemStore.outcomes, run, run']
            rw [run] at later
            dsimp only
            rw [mirrors'.root, ih mirrors' later]

end Mirrors

/-- No call finds a node under the key of the root record. -/
theorem zero_unread {events : List Event} (valid : Valid H s) :
    Throughout H depth (fun _ s => NodeStore.get s 0 = .ok none) events s := by
  induction events generalizing s with
  | nil => trivial
  | cons e events ih =>
      have unread : NodeStore.get s 0 = .ok none := by rw [LawfulNodeStore.get_eq, valid.view_zero]
      cases e with
      | flush => exact ⟨unread, ih ⟨valid.sound, fun _ _ => id⟩⟩
      | reopen => exact ⟨unread, ih ⟨valid.sound, valid.seen⟩⟩
      | call c =>
          refine ⟨unread, ?_⟩
          cases run : c.exec H depth s with
          | error p => trivial
          | ok result => exact ih (c.keeps (.valid H) s result.1 result.2 run valid)

theorem throughout_call {P : Event → RocksStore → Prop} {c : TreeCall} {events : List Event}
    (here : P (.call c) s)
    (later : ∀ r s', c.exec H depth s = .ok (r, s') → Throughout H depth P events s') :
    Throughout H depth P (.call c :: events) s := by
  refine ⟨here, ?_⟩
  cases run : c.exec H depth s with
  | error p => trivial
  | ok result => exact later result.1 result.2 run

theorem spaced_meets {events : List Event} {staged : Bool} (empty : staged = false → s.batch = [])
    (spaced : Event.spaced staged events) :
    Throughout H depth (fun e s => e.AfterFlush s ∧ e.Reads H s) events s := by
  induction events generalizing s staged with
  | nil => trivial
  | cons e events ih =>
      cases e with
      | flush => exact ⟨⟨trivial, trivial⟩, @ih s.flush false (fun _ => rfl) spaced⟩
      | reopen =>
          simp only [Event.spaced, Bool.and_eq_true, Bool.not_eq_true'] at spaced
          exact ⟨⟨empty spaced.1, trivial⟩, ih (fun _ => empty spaced.1) spaced.2⟩
      | call c =>
          cases c with
          | root =>
              refine throughout_call ⟨trivial, trivial⟩ fun r s' run => ?_
              cases run
              exact ih empty spaced
          | _ =>
              simp only [Event.spaced, Bool.and_eq_true, Bool.not_eq_true'] at spaced
              refine throughout_call ⟨trivial, shows_of_flushed (empty spaced.1)⟩ fun r s' run => ?_
              exact ih (fun impossible => by cases impossible) spaced.2

/-- A tree over the database store answers as one over the memory store does, as long as no call but
`root` finds nodes of the tree staged only. -/
theorem behaves_like_memory {db : DB} {cf : ColumnFamily} {keyPrefix : List UInt8} {events : List Event}
    (fresh : ∀ k, db cf (prefixKey keyPrefix k) = none)
    (meets : Throughout H depth (fun e s => e.AfterFlush s ∧ e.Reads H s) events (new db cf [] keyPrefix)) :
    outcomes H depth events (new db cf [] keyPrefix) = MemStore.new.outcomes H depth (Event.calls events) ∧
      Throughout H depth (fun _ s => NodeStore.get s 0 = .ok none) events (new db cf [] keyPrefix) := by
  have opened : Stores H depth (new db cf [] keyPrefix) .empty := kept (stores_new H depth cf keyPrefix) fresh
  have mirrors : Mirrors H depth (new db cf [] keyPrefix) MemStore.new .empty :=
    ⟨Alike.shown opened, Mootvote.SmtCircom.stores_new H depth, flushed_new db cf keyPrefix⟩
  exact ⟨mirrors.outcomes_eq meets, zero_unread opened.valid⟩

end RocksStore

namespace DeepestBit

open RocksStore

def opened : RocksStore := new (fun _ _ => none) .nodesQuota [] []

def flushed : List Event :=
  [.call (.add 0 7), .call .root, .flush, .reopen, .call (.add 1 8), .flush, .call (.getProof 0), .flush,
    .call (.update 0 9), .call .root]

theorem behaves_like_memory_flushed :
    outcomes hash 2 flushed opened = MemStore.new.outcomes hash 2 (Event.calls flushed) ∧
      Throughout hash 2 (fun _ s => NodeStore.get s 0 = .ok none) flushed opened :=
  behaves_like_memory (fun _ => rfl) (@spaced_meets _ _ opened flushed false (fun _ => rfl) (by decide))

def unflushed : List Event := [.call (.add 0 7), .call (.add 1 8)]

/-- The second `add` does not see the leaf of the first one, and drops it. -/
theorem differs_unflushed :
    Throughout hash 2 Event.AfterFlush unflushed opened ∧
      outcomes hash 2 unflushed opened ≠ MemStore.new.outcomes hash 2 (Event.calls unflushed) := by
  refine ⟨throughout_call trivial fun r s' _ => throughout_call trivial fun _ _ _ => trivial, fun same => ?_⟩
  have roots := congrArg (List.map Outcome.root) same
  have left : (outcomes hash 2 unflushed opened).map Outcome.root = [101, 105] := by decide +kernel
  have right : (MemStore.new.outcomes hash 2 (Event.calls unflushed)).map Outcome.root = [101, 106] := by
    decide +kernel
  rw [left, right] at roots
  exact absurd roots (by decide)

end DeepestBit

end Mootvote.SmtCircom
