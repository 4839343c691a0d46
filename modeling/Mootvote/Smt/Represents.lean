import Mootvote.Smt.Lib

set_option autoImplicit false

/-!
# What the stored tree's operations do

A store represents a tree when each of its nodes can be read under its hash. Each operation is
specified once by the tree operation it carries out; the only panic left is a hash that Poseidon
refuses.
-/

namespace Mootvote.SmtCircom

open Shared SparseMerkle

variable {H : IdealHash Word}

-- Every node is kept under its own hash.
def Sound (H : IdealHash Word) (m : Word → Option Node) : Prop := ∀ k n, m k = some n → n.key H = some k

def Represents (H : IdealHash Word) (m : Word → Option Node) : SparseTree Word → Word → Prop
  | .empty, root => root = 0
  | .leaf k v, root => leafHash H k v = some root ∧ m root = some (.leaf k v)
  | .node l r, root => ∃ a b, H.hash [a, b] = some root ∧ m root = some (.middle a b) ∧
      Represents H m l a ∧ Represents H m r b

theorem Represents.commit {m : Word → Option Node} {t : SparseTree Word} {root : Word}
    (represents : Represents H m t root) : t.commit H = some root := by
  induction t generalizing root with
  | empty => exact congrArg some (Eq.symm represents)
  | leaf k v => exact represents.1
  | node l r ihLeft ihRight =>
      obtain ⟨a, b, hashed, _, left, right⟩ := represents
      exact SparseTree.commit_node_iff.2 ⟨a, b, ihLeft left, ihRight right, hashed⟩

theorem Represents.mono {m m' : Word → Option Node} {t : SparseTree Word} {root : Word}
    (represents : Represents H m t root) (grows : ∀ k n, m k = some n → m' k = some n) :
    Represents H m' t root := by
  induction t generalizing root with
  | empty => exact represents
  | leaf k v => exact ⟨represents.1, grows _ _ represents.2⟩
  | node l r ihLeft ihRight =>
      obtain ⟨a, b, hashed, stored, left, right⟩ := represents
      exact ⟨a, b, hashed, grows _ _ stored, ihLeft left, ihRight right⟩

theorem Sound.zero {m : Word → Option Node} (sound : Sound H m) : m 0 = none := by
  cases found : m 0 with
  | none => rfl
  | some n => exact absurd (sound 0 n found) n.key_ne_zero

-- The bits of a key from a level on.
def bitsFrom (key : Word) (lvl levels : Nat) : List Bool := (List.range' lvl levels).map (bit key)

@[simp] theorem length_bitsFrom (key : Word)
  (lvl levels : Nat) : (bitsFrom key lvl levels).length = levels := by
  simp [bitsFrom]

theorem bitsFrom_succ (key : Word) (lvl levels : Nat) :
    bitsFrom key lvl (levels + 1) = bit key lvl :: bitsFrom key (lvl + 1) levels := by
  simp [bitsFrom, List.range'_succ]

theorem getPath_bitsFrom {depth : Nat} (key : Word) (bound : depth ≤ 256) :
    getPath depth key = bitsFrom key 0 depth := by
  rw [getPath_eq key bound, bitsFrom, List.range_eq_range']

theorem getPath_drop {depth : Nat} (key : Word) (bound : depth ≤ 256) (lvl : Nat) :
    (getPath depth key).drop lvl = bitsFrom key lvl (depth - lvl) := by
  rw [getPath_bitsFrom key bound, bitsFrom, bitsFrom, ← List.map_drop, List.drop_range']
  simp

section stores

variable {S : Type} [NodeStore S] [LawfulNodeStore S]

/-- Nodes sit under their hashes, and what is read is among what is written. -/
structure Valid (H : IdealHash Word) (s : S) : Prop where
  sound : Sound H (written s)
  seen : ∀ k n, view s k = some n → written s k = some n

structure Extends (H : IdealHash Word) (s s' : S) : Prop where
  valid : Valid H s'
  root : LawfulNodeStore.root s' = LawfulNodeStore.root s
  grows : ∀ k n, written s k = some n → written s' k = some n

theorem Extends.trans {s s' s'' : S} (first : Extends H s s') (second : Extends H s' s'') : Extends H s s'' :=
  ⟨second.valid, second.root.trans first.root, fun k n found => second.grows k n (first.grows k n found)⟩

theorem Valid.view_zero {s : S} (valid : Valid H s) : view s 0 = none := by
  cases found : view s 0 with
  | none => rfl
  | some n =>
      have stored := valid.seen 0 n found
      rw [valid.sound.zero] at stored
      cases stored

namespace SparseMerkleTree

theorem get_run (k : Word) (s : S) : get k s = .ok (.ok (view s k), s) := by
  rw [get, LawfulNodeStore.get_eq]

theorem root_run (s : S) : root s = .ok (.ok (LawfulNodeStore.root s), s) := by
  rw [root, LawfulNodeStore.getRoot_eq]

omit [LawfulNodeStore S] in
theorem nodeKey_run (n : Node) (s : S) : nodeKey H n s = match n.key H with
    | none => .error .poseidonHash
    | some k => .ok (.ok k, s) := by
  cases n with
  | middle l r =>
      simp only [nodeKey, Node.key, midKey, poseidonHash]
      cases H.hash [l, r] <;> rfl
  | leaf k v =>
      simp only [nodeKey, Node.key, leafKey, poseidonHash, leafHash]
      cases H.hash [k, v, 1] <;> rfl

omit [LawfulNodeStore S] in
theorem put_panics {n : Node} (refused : n.key H = none) (s : S) : put H n s = .error .poseidonHash := by
  apply Exec.bind_panic
  rw [nodeKey_run, refused]

theorem put_stores {n : Node} {k : Word} {s : S} (hashed : n.key H = some k) (valid : Valid H s) :
    ∃ s', put H n s = .ok (.ok k, s') ∧ Extends H s s' ∧ written s' k = some n := by
  obtain ⟨s', done, root, writes, reads⟩ := LawfulNodeStore.put_eq s k n
  have run : put H n s = .ok (.ok k, s') := by
    have key : nodeKey H n s = .ok (.ok k, s) := by rw [nodeKey_run, hashed]
    have stores : storePut k n.encode s = .ok (.ok (), s') := by rw [storePut, done]
    exact (Exec.bind_ok key).trans (Exec.bind_ok stores)
  -- A node overwritten under its own key is the same node.
  have grows : ∀ k' n', written s k' = some n' → written s' k' = some n' := by
    intro k' n' found
    rw [writes]
    by_cases same : k' = k
    · subst same
      rw [Function.update_self, Node.key_injective hashed (valid.sound k' n' found)]
    · rwa [Function.update_of_ne same]
  have sound : Sound H (written s') := by
    intro k' n' found
    rw [writes] at found
    by_cases same : k' = k
    · subst same
      rw [Function.update_self, Option.some.injEq] at found
      rwa [← found]
    · rw [Function.update_of_ne same] at found
      exact valid.sound k' n' found
  -- Reads may see the write at once or only after the flush.
  have seen : ∀ k' n', view s' k' = some n' → written s' k' = some n' := by
    intro k' n' found
    rcases reads with unchanged | updated
    · rw [unchanged] at found
      exact grows k' n' (valid.seen k' n' found)
    · rw [updated] at found
      rw [writes]
      by_cases same : k' = k
      · subst same
        rwa [Function.update_self] at found ⊢
      · rw [Function.update_of_ne same] at found ⊢
        exact valid.seen k' n' found
  exact ⟨s', run, ⟨⟨sound, seen⟩, root, grows⟩, by rw [writes, Function.update_self]⟩

/-- The computation writes the tree and returns its root, or panics when the tree has no root. -/
def Builds (H : IdealHash Word) (m : Run S Word) (s : S) (t : SparseTree Word) : Prop :=
  match t.commit H with
  | none => m s = .error .poseidonHash
  | some r => ∃ s', m s = .ok (.ok r, s') ∧ Extends H s s' ∧ Represents H (written s') t r

theorem Builds.some {m : Run S Word} {s : S} {t : SparseTree Word} {r : Word} (builds : Builds H m s t)
    (hashed : t.commit H = some r) :
    ∃ s', m s = .ok (.ok r, s') ∧ Extends H s s' ∧ Represents H (written s') t r := by
  rwa [Builds, hashed] at builds

theorem Builds.none {m : Run S Word} {s : S} {t : SparseTree Word} (builds : Builds H m s t)
    (refused : t.commit H = none) : m s = .error .poseidonHash := by
  rwa [Builds, refused] at builds

theorem Builds.congr {m m' : Run S Word} {s : S} {t : SparseTree Word} (builds : Builds H m s t)
    (same : m' s = m s) : Builds H m' s t := by
  unfold Builds at builds ⊢
  rwa [same]

theorem builds_leaf {s : S} (valid : Valid H s) (k v : Word) :
    Builds H (put H (.leaf k v)) s (.leaf k v) := by
  unfold Builds
  rw [show (SparseTree.leaf k v).commit H = leafHash H k v from rfl]
  cases hashed : leafHash H k v with
  | none => exact put_panics (n := .leaf k v) hashed s
  | some r =>
      obtain ⟨s', run, extends', stored⟩ := put_stores (n := .leaf k v) hashed valid
      exact ⟨s', run, extends', hashed, stored⟩

theorem Builds.node {m : Run S Word} {s : S} {child side : SparseTree Word} {sideRoot : Word}
    (builds : Builds H m s child) (there : Represents H (written s) side sideRoot) (right : Bool) :
    Builds H (do
      let next ← m
      put H (if right then .middle sideRoot next else .middle next sideRoot)) s
      (if right then .node side child else .node child side) := by
  cases hashed : child.commit H with
  | none =>
      have refused : (if right then SparseTree.node side child else .node child side).commit H = .none := by
        cases right <;> simp [SparseTree.commit, hashed, there.commit]
      rw [Builds, refused]
      exact Exec.bind_panic (builds.none hashed)
  | some c =>
      obtain ⟨s₁, run, extends₁, below⟩ := builds.some hashed
      have key : (if right then SparseTree.node side child else .node child side).commit H =
          (if right then Node.middle sideRoot c else .middle c sideRoot).key H := by
        cases right <;> simp [SparseTree.commit, Node.key, hashed, there.commit]
      unfold Builds
      rw [Exec.bind_ok run, key]
      cases joined : (if right then Node.middle sideRoot c else .middle c sideRoot).key H with
      | none => exact put_panics joined s₁
      | some r =>
          obtain ⟨s₂, run₂, extends₂, stored⟩ := put_stores joined extends₁.valid
          refine ⟨s₂, run₂, extends₁.trans extends₂, ?_⟩
          have kept := there.mono (extends₁.trans extends₂).grows
          have built := below.mono extends₂.grows
          cases right
          · exact ⟨c, sideRoot, joined, stored, built, kept⟩
          · exact ⟨sideRoot, c, joined, stored, kept, built⟩

theorem pushLeaf_builds {k v oldK oldV oldH : Word} {levels lvl : Nat} {s : S} {t : SparseTree Word}
    (valid : Valid H s) (oldHash : leafHash H oldK oldV = some oldH)
    (stored : written s oldH = some (.leaf oldK oldV))
    (done : SparseTree.split k v oldK oldV levels lvl = some t) :
    Builds H (pushLeaf H (.leaf k v) (.leaf oldK oldV) (bitsFrom k lvl levels)
      (bitsFrom oldK lvl levels)) s t := by
  induction levels generalizing lvl t with
  | zero => simp [SparseTree.split] at done
  | succ levels ih =>
      rw [bitsFrom_succ, bitsFrom_succ]
      unfold pushLeaf
      by_cases shared : bit k lvl = bit oldK lvl
      · rw [if_pos shared]
        simp only [SparseTree.split, shared, if_true] at done
        obtain ⟨below, deeper, rfl⟩ := Option.map_eq_some_iff.1 done
        rw [shared]
        exact (ih deeper).node (show Represents H (written s) .empty 0 from rfl) (bit oldK lvl)
      · rw [if_neg shared]
        have side : t = if bit k lvl then .node (.leaf oldK oldV) (.leaf k v) else .node (.leaf k v)
          (.leaf oldK oldV) := by
          simp only [SparseTree.split, shared, if_false] at done
          split_ifs at done ⊢ <;> exact (Option.some.inj done).symm
        rw [side]
        have there : Represents H (written s) (.leaf oldK oldV) oldH := ⟨oldHash, stored⟩
        refine ((builds_leaf valid k v).node there (bit k lvl)).congr ?_
        -- The old leaf's key is recomputed between the two writes.
        dsimp only
        cases run : put H (.leaf k v) s with
        | error p => rw [Exec.bind_panic run, Exec.bind_panic run]
        | ok result =>
            obtain ⟨result, s₁⟩ := result
            cases result with
            | error e => rw [Exec.bind_throw run, Exec.bind_throw run]
            | ok newH =>
                rw [Exec.bind_ok run, Exec.bind_ok run]
                have old : leafKey H oldK oldV s₁ = .ok (.ok oldH, s₁) := by
                  have key := nodeKey_run (H := H) (.leaf oldK oldV) s₁
                  rwa [show Node.key H (.leaf oldK oldV) = .some oldH from oldHash] at key
                rw [Exec.bind_ok old]

variable {depth : Nat}

theorem addLeaf_builds {k v cur : Word} {levels lvl : Nat} {s : S} {t t' : SparseTree Word}
    (bound : depth ≤ 256)
    (valid : Valid H s) (represents : Represents H (view s) t cur) (remaining : lvl + levels = depth)
    (done : t.add k v levels lvl = some t') :
    Builds H (addLeaf H depth (.leaf k v) (bitsFrom k lvl levels) cur lvl) s t' := by
  induction t generalizing cur levels lvl t' with
  | empty =>
      have empty : cur = 0 := represents
      have same : t' = .leaf k v := by cases levels <;> exact (Option.some.inj done).symm
      subst empty same
      refine (builds_leaf valid k v).congr ?_
      unfold addLeaf
      rw [Exec.bind_ok (get_run 0 s), valid.view_zero]
  | leaf oldK oldV =>
      rw [SparseTree.add_leaf] at done
      split_ifs at done with present
      refine (pushLeaf_builds valid represents.1 (valid.seen _ _ represents.2) done).congr ?_
      unfold addLeaf
      rw [Exec.bind_ok (get_run cur s), represents.2]
      dsimp only
      rw [if_neg (Ne.symm present), getPath_drop oldK bound, show depth - lvl = levels by omega]
  | node l r ihLeft ihRight =>
      obtain ⟨a, b, _, stored, left, right⟩ := represents
      obtain ⟨rest, rfl, ⟨side, below, deeper, rfl⟩ | ⟨side, below, deeper, rfl⟩⟩ :=
        SparseTree.add_node_cases done
      · refine ((ihRight right (by omega) deeper).node (left.mono valid.seen) true).congr ?_
        rw [bitsFrom_succ, side]
        conv => lhs; unfold addLeaf
        rw [Exec.bind_ok (get_run cur s), stored]
        rfl
      · refine ((ihLeft left (by omega) deeper).node (right.mono valid.seen) false).congr ?_
        rw [bitsFrom_succ, side]
        conv => lhs; unfold addLeaf
        rw [Exec.bind_ok (get_run cur s), stored]
        rfl

theorem addLeaf_present {k v old cur : Word} {levels lvl : Nat} {s : S} {t : SparseTree Word}
    (represents : Represents H (view s) t cur) (height : t.height ≤ levels)
    (stored : t.lookup k lvl = some old) :
    addLeaf H depth (.leaf k v) (bitsFrom k lvl levels) cur lvl s = .ok (.error .alreadyPresent, s) := by
  induction t generalizing cur levels lvl with
  | empty => simp [SparseTree.lookup] at stored
  | leaf oldK oldV =>
      simp only [SparseTree.lookup, SparseTree.slot_leaf] at stored
      split_ifs at stored with same
      unfold addLeaf
      rw [Exec.bind_ok (get_run cur s), represents.2]
      dsimp only
      rw [if_pos same.symm]
      rfl
  | node l r ihLeft ihRight =>
      obtain ⟨a, b, _, found, left, right⟩ := represents
      cases levels with
      | zero => simp [SparseTree.height] at height
      | succ levels =>
          simp only [SparseTree.height, Nat.add_le_add_iff_right, Nat.max_le] at height
          rw [SparseTree.lookup_node] at stored
          rw [bitsFrom_succ]
          unfold addLeaf
          rw [Exec.bind_ok (get_run cur s), found]
          cases side : bit k lvl <;> rw [side] at stored
          · exact Exec.bind_throw (ihLeft left height.1 stored)
          · exact Exec.bind_throw (ihRight right height.2 stored)

omit [LawfulNodeStore S] in
theorem pushLeaf_panics {k v oldK oldV : Word} {levels lvl : Nat} (s : S)
    (refused : SparseTree.split k v oldK oldV levels lvl = none) :
    pushLeaf H (.leaf k v) (.leaf oldK oldV) (bitsFrom k lvl levels) (bitsFrom oldK lvl levels) s =
      .error .indexOutOfBounds := by
  induction levels generalizing lvl with
  | zero => rfl
  | succ levels ih =>
      rw [bitsFrom_succ, bitsFrom_succ]
      unfold pushLeaf
      by_cases shared : bit k lvl = bit oldK lvl
      · rw [if_pos shared]
        simp only [SparseTree.split, shared, if_true, Option.map_eq_none_iff] at refused
        exact Exec.bind_panic (ih refused)
      · simp only [SparseTree.split, shared, if_false] at refused
        split_ifs at refused

theorem addLeaf_panics {k v cur : Word} {levels lvl : Nat} {s : S} {t : SparseTree Word} (bound : depth ≤ 256)
    (represents : Represents H (view s) t cur) (remaining : lvl + levels = depth)
    (absent : t.lookup k lvl = none) (refused : t.add k v levels lvl = none) :
    addLeaf H depth (.leaf k v) (bitsFrom k lvl levels) cur lvl s = .error .indexOutOfBounds := by
  induction t generalizing cur levels lvl with
  | empty => cases levels <;> cases refused
  | leaf oldK oldV =>
      have other : oldK ≠ k := by
        rintro rfl
        simp [SparseTree.lookup] at absent
      rw [SparseTree.add_leaf, if_neg other] at refused
      unfold addLeaf
      rw [Exec.bind_ok (get_run cur s), represents.2]
      dsimp only
      rw [if_neg (Ne.symm other), getPath_drop oldK bound, show depth - lvl = levels by omega]
      exact pushLeaf_panics s refused
  | node l r ihLeft ihRight =>
      obtain ⟨a, b, _, found, left, right⟩ := represents
      cases levels with
      | zero =>
          unfold addLeaf
          rw [Exec.bind_ok (get_run cur s), found]
          rfl
      | succ levels =>
          rw [SparseTree.lookup_node] at absent
          rw [bitsFrom_succ]
          unfold addLeaf
          rw [Exec.bind_ok (get_run cur s), found]
          simp only [SparseTree.add] at refused
          cases side : bit k lvl <;> rw [side] at absent <;>
            simp only [side, if_true, if_false, Bool.false_eq_true, Option.map_eq_none_iff] at refused
          · exact Exec.bind_panic (ihLeft left (by omega) absent refused)
          · exact Exec.bind_panic (ihRight right (by omega) absent refused)

theorem zip_bitsFrom (key : Word) (pre : List Word) (sib : Word) {lvl levels : Nat}
    (inside : pre.length < levels) :
    (pre ++ [sib]).zip (bitsFrom key lvl levels) =
      pre.zip (bitsFrom key lvl levels) ++ [(sib, bit key (lvl + pre.length))] := by
  induction pre generalizing lvl levels with
  | nil =>
      cases levels with
      | zero => simp at inside
      | succ levels => simp [bitsFrom_succ]
  | cons first pre ih =>
      cases levels with
      | zero => simp at inside
      | succ levels =>
          rw [bitsFrom_succ, List.cons_append, List.zip_cons_cons, List.zip_cons_cons, List.cons_append,
            ih (by simpa using inside), List.length_cons, Nat.add_right_comm, Nat.add_assoc]

-- What the loop does once it has written the changed leaf.
def finish (H : IdealHash Word) (old : Word) (above : List (Word × Bool)) (nodeH : Word) : Run S Word := do
  let nodeH ← rebuild H above nodeH
  setRoot nodeH
  return old

omit [LawfulNodeStore S] in
theorem finish_cons (old sib : Word) (bit : Bool) (above : List (Word × Bool)) (nodeH : Word) (s : S) :
    finish H old ((sib, bit) :: above) nodeH s =
      (put H (if bit then .middle sib nodeH else .middle nodeH sib) >>= finish H old above) s := by
  unfold finish
  exact Exec.bind_assoc _ _ _ s

theorem updateLoop_found {key val old cur : Word} {levels lvl : Nat} {s : S} {sub sub' : SparseTree Word}
    (pre : List Word) (bound : depth ≤ 256) (valid : Valid H s) (represents : Represents H (view s) sub cur)
    (remaining : lvl + levels = depth) (filled : pre.length = lvl)
    (done : sub.set key val lvl = some (old, sub')) (shallow : (sub.sides key lvl).length < levels) :
    ∃ m : Run S Word, Builds H m s sub' ∧
      updateLoop H depth key val (bitsFrom key lvl levels) pre cur s =
        (m >>= finish H old (pre.zip (getPath depth key)).reverse) s := by
  induction sub generalizing cur levels lvl sub' pre with
  | empty => simp [SparseTree.set] at done
  | leaf k v =>
      obtain ⟨rfl, rfl, rfl⟩ := SparseTree.set_leaf_cases done
      cases levels with
      | zero => simp at shallow
      | succ levels =>
          refine ⟨put H (.leaf k val), builds_leaf valid k val, ?_⟩
          rw [bitsFrom_succ]
          unfold updateLoop
          rw [Exec.bind_ok (get_run cur s), represents.2]
          dsimp only
          rw [if_neg (by simp)]
          rfl
  | node l r ihLeft ihRight =>
      obtain ⟨a, b, _, found, left, right⟩ := represents
      cases levels with
      | zero => simp at shallow
      | succ levels =>
          rw [SparseTree.sides_node, List.length_cons, Nat.add_lt_add_iff_right] at shallow
          -- The node above the child joins what was built with the sibling passed on the way down.
          have above {m : Run S Word} {child side : SparseTree Word} {sideRoot : Word}
              (there : Represents H (view s) side sideRoot) (builds : Builds H m s child)
              (below : updateLoop H depth key val (bitsFrom key lvl (levels + 1)) pre cur s =
                (m >>= finish H old ((pre ++ [sideRoot]).zip (getPath depth key)).reverse) s) :
              ∃ m : Run S Word, Builds H m s (if bit key lvl then .node side child else .node child side) ∧
                updateLoop H depth key val (bitsFrom key lvl (levels + 1)) pre cur s =
                  (m >>= finish H old (pre.zip (getPath depth key)).reverse) s := by
            refine ⟨_, builds.node (there.mono valid.seen) (bit key lvl), ?_⟩
            rw [below, getPath_bitsFrom key bound, zip_bitsFrom key pre sideRoot (by omega),
              List.reverse_append,
              Nat.zero_add, filled, List.reverse_singleton, List.singleton_append, Exec.bind_assoc]
            exact Exec.bind_congr (fun h s => finish_cons old sideRoot (bit key lvl) _ h s) s
          have step : updateLoop H depth key val (bitsFrom key lvl (levels + 1)) pre cur s =
              if bit key lvl then updateLoop H depth key val (bitsFrom key (lvl + 1) levels) (pre ++ [a]) b s
              else updateLoop H depth key val (bitsFrom key (lvl + 1) levels) (pre ++ [b]) a s := by
            rw [bitsFrom_succ]
            conv => lhs; unfold updateLoop
            rw [Exec.bind_ok (get_run cur s), found]
            cases bit key lvl <;> rfl
          obtain ⟨side, below, deeper, rfl⟩ | ⟨side, below, deeper, rfl⟩ := SparseTree.set_node_cases done
          · rw [side] at shallow
            obtain ⟨m, builds, loop⟩ := ihRight (pre ++ [a]) right (by omega)
              (by simp [filled]) deeper shallow
            simpa [side] using above left builds (by rw [step, side]; exact loop)
          · rw [side] at shallow
            obtain ⟨m, builds, loop⟩ := ihLeft (pre ++ [b]) left (by omega) (by simp [filled]) deeper shallow
            simpa [side] using above right builds (by rw [step, side]; exact loop)

theorem updateLoop_missing {key val cur : Word} {levels lvl : Nat} {s : S} {sub : SparseTree Word}
    (pre : List Word) (valid : Valid H s) (represents : Represents H (view s) sub cur)
    (missing : sub.lookup key lvl = none ∨ levels ≤ (sub.sides key lvl).length) :
    updateLoop H depth key val (bitsFrom key lvl levels) pre cur s = .ok (.error .keyNotFound, s) := by
  induction levels generalizing sub cur lvl pre with
  | zero => rfl
  | succ levels ih =>
      rw [bitsFrom_succ]
      unfold updateLoop
      rw [Exec.bind_ok (get_run cur s)]
      cases sub with
      | empty =>
          rw [show cur = 0 from represents, valid.view_zero]
          rfl
      | leaf k v =>
          rw [represents.2]
          dsimp only
          have other : k ≠ key := by
            rintro rfl
            simp [SparseTree.lookup, SparseTree.sides] at missing
          rw [if_pos other]
          rfl
      | node l r =>
          obtain ⟨a, b, _, found, left, right⟩ := represents
          rw [SparseTree.lookup_node, SparseTree.sides_node, List.length_cons,
            Nat.add_le_add_iff_right] at missing
          rw [found]
          cases side : bit key lvl <;> rw [side] at missing
          · exact ih (pre ++ [b]) left missing
          · exact ih (pre ++ [a]) right missing

def proofOf (key : Word) (siblings : List Word) : SparseTree Word → CircomProof
  | .leaf k v => { oldKey := k, oldValue := v, isOld0 := k = 0, siblings, membership := k = key }
  | _ => { oldKey := 0, oldValue := 0, isOld0 := true, siblings, membership := false }

theorem getProofLoop_run {key cur : Word} {levels lvl : Nat} {s : S} {sub : SparseTree Word} (pre : List Word)
    (valid : Valid H s) (represents : Represents H (view s) sub cur) (height : sub.height ≤ levels)
    (remaining : lvl + levels = depth) (positive : 0 < levels) (filled : pre.length = lvl) :
    ∃ hashes, List.Forall₂ (fun side h => SparseTree.commit H side = some h) (sub.sides key lvl) hashes ∧
      getProofLoop depth key (bitsFrom key lvl levels) lvl (pre ++ List.replicate levels 0) cur s =
        .ok (.ok (proofOf key (pre ++ hashes ++ List.replicate (levels - hashes.length) 0)
          (if hashes.length < levels then sub.slot key lvl else .empty)), s) := by
  induction levels generalizing sub cur lvl pre with
  | zero => omega
  | succ levels ih =>
      rw [bitsFrom_succ]
      unfold getProofLoop
      rw [Exec.bind_ok (get_run cur s)]
      cases sub with
      | empty =>
          rw [show cur = 0 from represents, valid.view_zero]
          exact ⟨[], .nil, by simp [proofOf, Exec.pure_run]⟩
      | leaf k v =>
          rw [represents.2]
          exact ⟨[], .nil, by simp [proofOf, Exec.pure_run]⟩
      | node l r =>
          obtain ⟨a, b, _, found, left, right⟩ := represents
          simp only [SparseTree.height, Nat.add_le_add_iff_right, Nat.max_le] at height
          have stored (x : Word) : (pre ++ List.replicate (levels + 1) 0).set lvl x =
              (pre ++ [x]) ++ List.replicate levels 0 := by
            rw [List.set_append_right _ _ (by omega), filled, Nat.sub_self, List.replicate_succ,
              List.set_cons_zero]
            simp
          have taken : Represents H (view s) (if bit key lvl then r else l)
            (if bit key lvl then b else a) := by
            split <;> assumption
          have beside : (if bit key lvl then l else r).commit H = some (if bit key lvl then a else b) := by
            split
            · exact left.commit
            · exact right.commit
          rw [found, SparseTree.sides_node, SparseTree.slot_node]
          dsimp only
          rw [stored]
          by_cases last : lvl = depth - 1
          · -- At the last level the loop stops without looking at the child.
            have none : levels = 0 := by omega
            subst none
            rw [if_pos last]
            have ends : (if bit key lvl then r else l).sides key (lvl + 1) = [] := by
              have flat : (if bit key lvl then r else l).height = 0 := by split <;> omega
              cases shape : (if bit key lvl then r else l) with
              | empty | leaf => rfl
              | node => simp [shape, SparseTree.height] at flat
            refine ⟨[if bit key lvl then a else b], ?_, by simp [proofOf, Exec.pure_run]⟩
            rw [ends]
            exact .cons beside .nil
          · rw [if_neg last]
            obtain ⟨hashes, committed, run⟩ := ih (pre ++ [if bit key lvl then a else b]) taken
              (by split <;> omega) (show lvl + 1 + levels = depth by omega) (by omega) (by simp [filled])
            refine ⟨_ :: hashes, .cons beside committed, ?_⟩
            simpa using run

end SparseMerkleTree

end stores

end Mootvote.SmtCircom
