import Mootvote.Smt.Store

set_option autoImplicit false

namespace Mootvote.SmtCircom

open Shared SparseMerkle

inductive Panic where
  | poseidonHash
  | nodeExists
  | indexOutOfBounds
  | unreachable
deriving DecidableEq

inductive SmtError (E : Type) where
  | alreadyPresent
  | keyNotFound
  | store (e : E)
deriving DecidableEq

/-- A fallible computation on a store: it panics, or it ends in a result and the store it leaves. -/
def Exec (S E A : Type) := S → Except Panic (Except E A × S)

namespace Exec

variable {S E A B : Type}

def pure (a : A) : Exec S E A := fun s => .ok (.ok a, s)

def bind (m : Exec S E A) (f : A → Exec S E B) : Exec S E B := fun s =>
  match m s with
  | .error p => .error p
  | .ok (.error e, s') => .ok (.error e, s')
  | .ok (.ok a, s') => f a s'

instance : Monad (Exec S E) where
  pure := Exec.pure
  bind := Exec.bind

def throw (e : E) : Exec S E A := fun s => .ok (.error e, s)

def panic (p : Panic) : Exec S E A := fun _ => .error p

theorem bind_ok {m : Exec S E A} {f : A → Exec S E B} {s s' : S} {a : A} (done : m s = .ok (.ok a, s')) :
    (m >>= f) s = f a s' := by
  change Exec.bind m f s = f a s'
  rw [Exec.bind, done]

theorem bind_throw {m : Exec S E A} {f : A → Exec S E B} {s s' : S} {e : E}
    (done : m s = .ok (.error e, s')) :
    (m >>= f) s = .ok (.error e, s') := by
  change Exec.bind m f s = _
  rw [Exec.bind, done]

theorem bind_panic {m : Exec S E A} {f : A → Exec S E B} {s : S} {p : Panic} (done : m s = .error p) :
    (m >>= f) s = .error p := by
  change Exec.bind m f s = _
  rw [Exec.bind, done]

theorem of_bind_ok {m : Exec S E A} {f : A → Exec S E B} {s s' : S} {b : B}
    (done : (m >>= f) s = .ok (.ok b, s')) :
    ∃ a s₁, m s = .ok (.ok a, s₁) ∧ f a s₁ = .ok (.ok b, s') := by
  cases run : m s with
  | error p => cases (bind_panic run).symm.trans done
  | ok result =>
      obtain ⟨result, s₁⟩ := result
      cases result with
      | error e => cases (bind_throw run).symm.trans done
      | ok a => exact ⟨a, s₁, rfl, (bind_ok run).symm.trans done⟩

theorem bind_assoc {C : Type} (m : Exec S E A) (f : A → Exec S E B) (g : B → Exec S E C) (s : S) :
    ((m >>= f) >>= g) s = (m >>= fun a => f a >>= g) s := by
  cases run : m s with
  | error p => rw [bind_panic run, bind_panic (bind_panic run)]
  | ok result =>
      obtain ⟨result, s'⟩ := result
      cases result with
      | error e => rw [bind_throw run, bind_throw (bind_throw run)]
      | ok a =>
          rw [bind_ok run]
          change Exec.bind (Exec.bind m f) g s = Exec.bind (f a) g s'
          rw [Exec.bind, Exec.bind, run]
          rfl

theorem bind_congr {m : Exec S E A} {f g : A → Exec S E B} (same : ∀ a s, f a s = g a s) (s : S) :
    (m >>= f) s = (m >>= g) s := by
  have equal : f = g := funext fun a => funext (same a)
  rw [equal]

theorem pure_run (a : A) (s : S) : (Pure.pure a : Exec S E A) s = .ok (.ok a, s) := rfl

end Exec

structure CircomProof where
  siblings : List Word
  isOld0 : Bool
  oldKey : Word
  oldValue : Word
  membership : Bool
deriving DecidableEq

def CircomProof.getLeaf (p : CircomProof) : Option Word := if p.membership then some p.oldValue else none

def CircomProof.opening (p : CircomProof) : Opening Word :=
  { siblings := p.siblings, isOld0 := p.isOld0, oldKey := p.oldKey, oldValue := p.oldValue }

namespace SparseMerkleTree

variable {S : Type} [NodeStore S] (H : IdealHash Word) (depth : Nat)

abbrev Run (S : Type) [NodeStore S] (A : Type) := Exec S (SmtError (NodeStore.Error S)) A

def poseidonHash (inputs : List Word) : Run S Word :=
  match H.hash inputs with
  | none => .panic .poseidonHash
  | some h => .pure h

def leafKey (k v : Word) : Run S Word := poseidonHash H [k, v, 1]

def midKey (l r : Word) : Run S Word := poseidonHash H [l, r]

def nodeKey : Node → Run S Word
  | .leaf k v => leafKey H k v
  | .middle l r => midKey H l r

def get (k : Word) : Run S (Option Node) := fun s =>
  match NodeStore.get s k with
  | .error _ => .error .nodeExists
  | .ok n => .ok (.ok n, s)

def root : Run S Word := fun s =>
  match NodeStore.getRoot s with
  | .error e => .ok (.error (.store e), s)
  | .ok r => .ok (.ok r, s)

def storePut (k : Word) (node : List UInt8) : Run S Unit := fun s =>
  match NodeStore.put s k node with
  | .error e => .ok (.error (.store e), s)
  | .ok s' => .ok (.ok (), s')

def put (node : Node) : Run S Word := do
  let k ← nodeKey H node
  storePut k node.encode
  return k

def setRoot (root : Word) : Run S Unit := fun s =>
  match NodeStore.setRoot s root with
  | .error e => .ok (.error (.store e), s)
  | .ok s' => .ok (.ok (), s')

-- Both paths are what is left of them at the level; past the end, indexing panics.
def pushLeaf (newLeaf oldLeaf : Node) : List Bool → List Bool → Run S Word
  | new :: pathNew, old :: pathOld =>
      if new = old then do
        let nextKey ← pushLeaf newLeaf oldLeaf pathNew pathOld
        put H (if new then .middle 0 nextKey else .middle nextKey 0)
      else
        match oldLeaf with
        | .leaf oldK oldV => do
            let newLeafKey ← put H newLeaf
            let oldLeafKey ← leafKey H oldK oldV
            put H (if new then .middle oldLeafKey newLeafKey else .middle newLeafKey oldLeafKey)
        | .middle _ _ => .panic .unreachable
  | _, _ => .panic .indexOutOfBounds

-- `path` is what is left of `path_new` at level `lvl`.
def addLeaf (newLeaf : Node) : List Bool → Word → Nat → Run S Word
  | path, curKey, lvl => do
      match ← get curKey with
      | none => put H newLeaf
      | some (.leaf oldK oldV) =>
          match newLeaf with
          | .leaf newK _ =>
              if newK = oldK then .throw .alreadyPresent
              else pushLeaf H newLeaf (.leaf oldK oldV) path ((getPath depth oldK).drop lvl)
          | .middle _ _ => .panic .unreachable
      | some (.middle l r) =>
          match path with
          | [] => .panic .indexOutOfBounds
          | goRight :: path =>
              if goRight then do
                let next ← addLeaf newLeaf path r (lvl + 1)
                put H (.middle l next)
              else do
                let next ← addLeaf newLeaf path l (lvl + 1)
                put H (.middle next r)

-- Past 256 levels, `get_path` indexes outside the key's bytes.
def pathOf (key : Word) : Run S (List Bool) :=
  if depth ≤ 256 then pure (getPath depth key) else .panic .indexOutOfBounds

def add (key val : Word) : Run S Unit := do
  let pathNew ← pathOf depth key
  let curKey ← root
  let newRoot ← addLeaf H depth (.leaf key val) pathNew curKey 0
  setRoot newRoot

-- The siblings with the bits of the path beside them, the deepest first.
def rebuild : List (Word × Bool) → Word → Run S Word
  | [], nodeH => pure nodeH
  | (sib, bit) :: rest, nodeH => do
      let nodeH ← put H (if bit then .middle sib nodeH else .middle nodeH sib)
      rebuild rest nodeH

def updateLoop (key val : Word) : List Bool → List Word → Word → Run S Word
  | [], _, _ => .throw .keyNotFound
  | goRight :: path, siblings, cur => do
      match ← get cur with
      | none => .throw .keyNotFound
      | some (.leaf k v) =>
          if k ≠ key then .throw .keyNotFound
          else do
            let nodeH ← put H (.leaf key val)
            let nodeH ← rebuild H (siblings.zip (getPath depth key)).reverse nodeH
            setRoot nodeH
            return v
      | some (.middle l r) =>
          if goRight then updateLoop key val path (siblings ++ [l]) r
          else updateLoop key val path (siblings ++ [r]) l

def update (key val : Word) : Run S Word := do
  let cur ← root
  let path ← pathOf depth key
  updateLoop H depth key val path [] cur

def getProofLoop (key : Word) : List Bool → Nat → List Word → Word → Run S CircomProof
  | [], _, _, _ => .panic .unreachable
  | goRight :: path, i, siblings, cur => do
      match ← get cur with
      | none => return { oldKey := 0, oldValue := 0, isOld0 := true, siblings, membership := false }
      | some (.leaf leafK leafV) =>
          return {
            oldKey := leafK, oldValue := leafV, isOld0 := leafK = 0, siblings,
            membership := leafK = key }
      | some (.middle l r) =>
          let siblings := siblings.set i (if goRight then l else r)
          if i = depth - 1 then
            return { oldKey := 0, oldValue := 0, isOld0 := true, siblings, membership := false }
          else getProofLoop key path (i + 1) siblings (if goRight then r else l)

def getProof (key : Word) : Run S CircomProof := do
  let cur ← root
  let path ← pathOf depth key
  getProofLoop depth key path 0 (List.replicate depth 0) cur

def addOrUpdate (key val : Word) : Run S Unit := fun s =>
  match add H depth key val s with
  | .ok (.error .alreadyPresent, s') => (do let _ ← update H depth key val : Run S Unit) s'
  | other => other

end SparseMerkleTree

end Mootvote.SmtCircom
