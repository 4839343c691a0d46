import Mathlib.Logic.Function.Basic
import Mootvote.Smt.Node

set_option autoImplicit false

namespace Mootvote.SmtCircom

open Shared SparseMerkle

class NodeStore (S : Type) where
  Error : Type
  get : S → Word → Except Error (Option Node)
  put : S → Word → List UInt8 → Except Error S
  getRoot : S → Except Error Word
  setRoot : S → Word → Except Error S

/-- What a store keeps: the nodes it reads now, the nodes it will read once its writes are flushed, its root. -/
class LawfulNodeStore (S : Type) [NodeStore S] where
  view : S → Word → Option Node
  written : S → Word → Option Node
  root : S → Word
  get_eq : ∀ s k, NodeStore.get s k = .ok (view s k)
  getRoot_eq : ∀ s, NodeStore.getRoot s = .ok (root s)
  put_eq : ∀ s k (n : Node), ∃ s', NodeStore.put s k n.encode = .ok s' ∧ root s' = root s ∧
    written s' = Function.update (written s) k (some n) ∧
    (view s' = view s ∨ view s' = Function.update (view s) k (some n))
  setRoot_eq : ∀ s r, written s 0 = none → ∃ s', NodeStore.setRoot s r = .ok s' ∧ root s' = r ∧
    written s' = written s ∧ view s' = view s

export LawfulNodeStore (view written)

structure MemStore where
  map : Word → Option (List UInt8)
  root : Word

namespace MemStore

def new : MemStore := { map := fun _ => none, root := 0 }

instance : NodeStore MemStore where
  Error := Empty
  get s k := .ok ((s.map k).bind Node.decode)
  put s k n := .ok { s with map := Function.update s.map k (some n) }
  getRoot s := .ok s.root
  setRoot s root := .ok { s with root := root }

theorem decoded_update (map : Word → Option (List UInt8)) (k : Word) (n : Node) :
    (fun other => (Function.update map k (some n.encode) other).bind Node.decode) =
      Function.update (fun other => (map other).bind Node.decode) k (some n) := by
  funext other
  by_cases same : other = k
  · simp [same]
  · simp [Function.update_of_ne same]

instance : LawfulNodeStore MemStore where
  view s k := (s.map k).bind Node.decode
  written s k := (s.map k).bind Node.decode
  root s := s.root
  get_eq _ _ := rfl
  getRoot_eq _ := rfl
  put_eq s k n := ⟨_, rfl, rfl, decoded_update s.map k n, .inr (decoded_update s.map k n)⟩
  setRoot_eq _ _ _ := ⟨_, rfl, rfl, rfl, rfl⟩

theorem view_eq_written (s : MemStore) : view s = written s := rfl

end MemStore

section databases

inductive ColumnFamily where
  | nodesQuota
  | nodesUniq
deriving DecidableEq

abbrev DB := ColumnFamily → List UInt8 → Option (List UInt8)

abbrev WriteBatch := List (ColumnFamily × List UInt8 × List UInt8)

def DB.put (db : DB) (cf : ColumnFamily) (key value : List UInt8) : DB :=
  Function.update db cf (Function.update (db cf) key (some value))

def DB.write (db : DB) (batch : WriteBatch) : DB :=
  batch.foldl (fun db entry => db.put entry.1 entry.2.1 entry.2.2) db

theorem DB.write_append (db : DB) (batch batch' : WriteBatch) :
    db.write (batch ++ batch') = (db.write batch).write batch' := List.foldl_append

/-- Nodes under a key prefix in one column family; writes go to the batch and reads do not see them. -/
structure RocksStore where
  db : DB
  cf : ColumnFamily
  batch : WriteBatch
  keyPrefix : List UInt8
  cachedRoot : Word

namespace RocksStore

def prefixKey (keyPrefix : List UInt8) (key : Word) : List UInt8 := keyPrefix ++ key.bytes

-- A stored root of another length would not convert; roots are written by `setRoot` alone.
def storedRoot (db : DB) (cf : ColumnFamily) (keyPrefix : List UInt8) : Word :=
  match db cf (prefixKey keyPrefix 0) with
  | none => 0
  | some bs => Word.ofBytes bs

def new (db : DB) (cf : ColumnFamily) (batch : WriteBatch) (keyPrefix : List UInt8) : RocksStore :=
  { db, cf, batch, keyPrefix, cachedRoot := storedRoot db cf keyPrefix }

instance : NodeStore RocksStore where
  Error := Empty
  get s k := .ok ((s.db s.cf (prefixKey s.keyPrefix k)).bind Node.decode)
  put s k n := .ok { s with batch := s.batch ++ [(s.cf, prefixKey s.keyPrefix k, n)] }
  getRoot s := .ok s.cachedRoot
  setRoot s root :=
    .ok { s with batch := s.batch ++ [(s.cf, prefixKey s.keyPrefix 0, root.bytes)], cachedRoot := root }

theorem prefixKey_injective {keyPrefix : List UInt8} {k k' : Word}
    (same : prefixKey keyPrefix k = prefixKey keyPrefix k') : k = k' := by
  have bytes := List.append_cancel_left same
  rw [← Word.ofBytes_bytes k, bytes, Word.ofBytes_bytes]

-- The nodes a database holds under a prefix.
def nodes (db : DB) (cf : ColumnFamily) (keyPrefix : List UInt8) (k : Word) : Option Node :=
  (db cf (prefixKey keyPrefix k)).bind Node.decode

theorem nodes_put (db : DB) (cf : ColumnFamily) (keyPrefix : List UInt8) (k : Word) (value : List UInt8) :
    nodes (db.put cf (prefixKey keyPrefix k) value) cf keyPrefix =
      Function.update (nodes db cf keyPrefix) k (Node.decode value) := by
  funext other
  by_cases same : other = k
  · simp [nodes, DB.put, same]
  · have keys : prefixKey keyPrefix other ≠ prefixKey keyPrefix k :=
      fun equal => same (prefixKey_injective equal)
    simp [nodes, DB.put, Function.update_of_ne same, Function.update_of_ne keys]

theorem decode_root (root : Word) : Node.decode root.bytes = none := by simp [Node.decode]

instance : LawfulNodeStore RocksStore where
  view s := nodes s.db s.cf s.keyPrefix
  written s := nodes (s.db.write s.batch) s.cf s.keyPrefix
  root s := s.cachedRoot
  get_eq _ _ := rfl
  getRoot_eq _ := rfl
  put_eq s k n := by
    refine ⟨_, rfl, rfl, ?_, .inl rfl⟩
    dsimp only
    rw [DB.write_append]
    exact (nodes_put _ _ _ _ _).trans (by rw [Node.decode_encode])
  setRoot_eq s r empty := by
    refine ⟨_, rfl, rfl, ?_, rfl⟩
    dsimp only
    rw [DB.write_append]
    refine (nodes_put _ _ _ _ _).trans ?_
    rw [decode_root, ← empty, Function.update_eq_self]

end RocksStore

end databases

end Mootvote.SmtCircom
