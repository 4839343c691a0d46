import Mathlib.Algebra.Order.Ring.Int
import Mootvote.Circom.Vote
import Mootvote.Shared.CompleteTree

set_option autoImplicit false

namespace Mootvote.Helpers

open Shared CompleteTree

section javascript

-- The operators of JavaScript work on 32 bits.
def toInt32 (x : Int) : Int := x.bmod (2 ^ 32)

def shr1 (x : Int) : Int := toInt32 x / 2

def and1 (x : Int) : Int := toInt32 x % 2

def slice (level : List Int) (last : Int) : List Int :=
  if last < 0 then level.take (level.length + last).toNat else level.take last.toNat

end javascript

section merkleTree

variable (P : List Fr → Fr)

/-- circomlibjs reduces the inputs and returns a number below the modulus. -/
def poseidon (inputs : List Int) : Int := (P (inputs.map Int.cast)).val

def defaults : (level : Nat) → Int
  | 0 => poseidon P [0]
  | i + 1 => poseidon P [defaults i, defaults i]

def sibAt (level : List Int) (default sibIndex : Int) : Option Int :=
  if sibIndex < level.length then level[sibIndex.toNat]? else some default

-- The element is replaced in place; the later ones are still those of the level below.
def compressAt (default : Int) (level : List Int) (j : Nat) : Option (List Int) := do
  let sib ← sibAt level default (2 * j + 1)
  let left ← level[2 * j]?
  return level.set j (poseidon P [left, sib])

/-- The next level; `none` stands for a read outside of the array, which Poseidon refuses. -/
def compress (default : Int) (level : List Int) : Option (List Int) := do
  let newLevelLen := shr1 (level.length + 1)
  let level ← (List.range newLevelLen.toNat).foldlM (compressAt P default) level
  return slice level newLevelLen

def rootLoop : (rest lvl : Nat) → (cur : Int) → (level : List Int) → Option Int
  | 0, _, cur, _ => some cur
  | rest + 1, lvl, cur, level => do
      let sib ← sibAt level (defaults P lvl) 1
      let level ← compress P (defaults P lvl) level
      rootLoop rest (lvl + 1) (poseidon P [cur, sib]) level

def getMerkleRoot (depth : Nat) (leafs : List Int) : Option Int := do
  let cur ← leafs[0]?
  rootLoop P depth 0 cur leafs

structure MerkleProof where
  root : Int
  path : List Int
  pathPos : List Int
deriving DecidableEq

def proofLoop : (rest lvl : Nat) → (cur idx : Int) → (level path pathPos : List Int) → Option MerkleProof
  | 0, _, cur, _, _, path, pathPos => some { root := cur, path, pathPos }
  | rest + 1, lvl, cur, idx, level, path, pathPos => do
      let bit := and1 idx
      let sib ← sibAt level (defaults P lvl) (idx + (1 - 2 * bit))
      let cur := if bit = 0 then poseidon P [cur, sib] else poseidon P [sib, cur]
      let level ← compress P (defaults P lvl) level
      proofLoop rest (lvl + 1) cur (shr1 idx) level (path ++ [sib]) (pathPos ++ [bit])

def getMerkleProof (depth : Nat) (leafs : List Int) (index : Nat) : Option MerkleProof := do
  let cur ← leafs[index]?
  proofLoop P depth 0 cur index leafs [] []

abbrev hashNode (leaf : Nat → Int) : (level index : Nat) → Int := node (fun x y => poseidon P [x, y]) leaf

def treeRoot (depth : Nat) (leafs : List Int) : Int :=
  hashNode P (fun i => leafs[i]?.getD (poseidon P [0])) depth 0

end merkleTree

section compress

variable (P : List Fr → Fr)

theorem toInt32_of_lt {n : Nat} (small : n < 2 ^ 31) : toInt32 n = n := by
  rw [toInt32, Int.bmod_eq_of_le (by omega) (by omega)]

theorem shr1_of_lt {n : Nat} (small : n < 2 ^ 31) : shr1 n = (n / 2 : Nat) := by
  rw [shr1, toInt32_of_lt small, Int.natCast_div]
  rfl

theorem and1_of_lt {n : Nat} (small : n < 2 ^ 31) : and1 n = (n % 2 : Nat) := by
  rw [and1, toInt32_of_lt small, Int.natCast_mod]
  rfl

theorem sibAt_pads {level : List Int} {default : Int} {values : Nat → Int} (pads : Pads level default values)
    (i : Nat) : sibAt level default i = some (values i) := by
  rw [sibAt]
  split
  case isTrue inside => exact pads.found (by omega)
  case isFalse outside => rw [pads.beyond (by omega)]

structure Halfway (level : List Int) (values : Nat → Int) (m : Nat) (level' : List Int) : Prop where
  length : level'.length = level.length
  front : ∀ i < m, level'[i]? = some (poseidon P [values (2 * i), values (2 * i + 1)])
  back : ∀ i, m ≤ i → level'[i]? = level[i]?

variable {P}

theorem compressAt_spec {default : Int} {level level' : List Int} {values : Nat → Int} {m : Nat}
    (pads : Pads level default values) (inside : 2 * m < level.length)
    (halfway : Halfway P level values m level') :
    ∃ next, compressAt P default level' m = some next ∧ Halfway P level values (m + 1) next := by
  have sib : sibAt level' default (2 * m + 1) = some (values (2 * m + 1)) := by
    rw [← sibAt_pads pads (2 * m + 1), sibAt, sibAt, halfway.length, halfway.back _ (by omega)]
    rfl
  have left : level'[2 * m]? = some (values (2 * m)) := by
    rw [halfway.back _ (by omega)]
    exact pads.found inside
  refine ⟨level'.set m (poseidon P [values (2 * m), values (2 * m + 1)]), ?_, ?_, ?_, ?_⟩
  · rw [compressAt, sib, left]
    rfl
  · rw [List.length_set, halfway.length]
  · intro i below
    by_cases same : m = i
    · subst same
      rw [List.getElem?_set_self (by rw [halfway.length]; omega)]
    · rw [List.getElem?_set_ne same]
      exact halfway.front i (by omega)
  · intro i above
    rw [List.getElem?_set_ne (by omega)]
    exact halfway.back i (by omega)

theorem compressLoop_spec {default : Int} {level : List Int} {values : Nat → Int}
    (pads : Pads level default values)
    (m : Nat) (inside : 2 * m ≤ level.length + 1) :
    ∃ level', (List.range m).foldlM (compressAt P default) level = some level' ∧
    Halfway P level values m level' := by
  induction m with
  | zero => exact ⟨level, rfl, rfl, nofun, fun _ _ => rfl⟩
  | succ m ih =>
      obtain ⟨level', run, halfway⟩ := ih (by omega)
      obtain ⟨next, step, done⟩ := compressAt_spec pads (by omega) halfway
      refine ⟨next, ?_, done⟩
      rw [List.range_succ, List.foldlM_append, run, Option.bind_eq_bind, Option.bind_some,
        List.foldlM_cons, step]
      rfl

/-- The next level of the tree, without the nodes over missing leaves. -/
theorem compress_spec {default : Int} {level : List Int} {values : Nat → Int}
    (pads : Pads level default values)
    (small : level.length < 2 ^ 31 - 1) :
    ∃ level', compress P default level = some level' ∧ level'.length = (level.length + 1) / 2 ∧
      Pads level' (poseidon P [default, default]) fun i => poseidon P
      [values (2 * i), values (2 * i + 1)] := by
  obtain ⟨full, run, halfway⟩ := compressLoop_spec (P := P) pads ((level.length + 1) / 2) (by omega)
  have newLevelLen : shr1 (level.length + 1) = ((level.length + 1) / 2 : Nat) :=
    shr1_of_lt (n := level.length + 1) (by omega)
  have length : (full.take ((level.length + 1) / 2)).length = (level.length + 1) / 2 := by
    rw [List.length_take, halfway.length]
    omega
  refine ⟨full.take ((level.length + 1) / 2), ?_, length, ?_⟩
  · rw [compress, newLevelLen, Int.toNat_natCast, run, Option.bind_eq_bind, Option.bind_some, slice,
      if_neg (by omega),
      Int.toNat_natCast]
    rfl
  · refine @Pads.pair Int (fun x y => poseidon P [x, y]) level _ default values pads length fun i inside => ?_
    rw [length] at inside
    rw [List.getElem?_take_of_lt inside]
    exact halfway.front i inside

end compress

section loops

variable {P : List Fr → Fr} {leaf : Nat → Int}

structure AtLevel (P : List Fr → Fr) (leaf : Nat → Int) (lvl : Nat) (level : List Int) : Prop where
  small : level.length < 2 ^ 31 - 1
  pads : Pads level (defaults P lvl) (hashNode P leaf lvl)

theorem AtLevel.compress {lvl : Nat} {level : List Int} (reached : AtLevel P leaf lvl level) :
    ∃ level', compress P (defaults P lvl) level = some level' ∧ AtLevel P leaf (lvl + 1) level' := by
  obtain ⟨level', run, length, pads⟩ := compress_spec (P := P) reached.pads reached.small
  have small := reached.small
  exact ⟨level', run, by omega, pads⟩

theorem rootLoop_spec (rest : Nat) {lvl : Nat} {level : List Int} (reached : AtLevel P leaf lvl level) :
    rootLoop P rest lvl (hashNode P leaf lvl 0) level =
      some (hashNode P leaf (lvl + rest) 0) := by
  induction rest generalizing lvl level with
  | zero => rfl
  | succ rest ih =>
      obtain ⟨level', run, next⟩ := reached.compress
      have sib := sibAt_pads reached.pads 1
      rw [Nat.cast_one] at sib
      rw [rootLoop, sib, run, show lvl + (rest + 1) = lvl + 1 + rest by omega, ← ih next]
      rfl

theorem hashNode_parent (leaf : Nat → Int) (lvl idx : Nat) : hashNode P leaf (lvl + 1) (idx / 2) =
    if idx % 2 = 0 then poseidon P [hashNode P leaf lvl idx, hashNode P leaf lvl (sibling idx)]
    else poseidon P [hashNode P leaf lvl (sibling idx), hashNode P leaf lvl idx] :=
  node_parent (fun x y => poseidon P [x, y]) leaf lvl idx

theorem sibling_eq (idx : Nat) : (idx : Int) + (1 - 2 * (idx % 2 : Nat)) = (sibling idx : Nat) := by
  rw [sibling]
  split <;> omega

def siblings (P : List Fr → Fr) (leaf : Nat → Int) (lvl idx rest : Nat) : List Int :=
  (List.range rest).map fun i => hashNode P leaf (lvl + i) (sibling (idx / 2 ^ i))

def bits (idx rest : Nat) : List Int := (List.range rest).map fun i => (idx / 2 ^ i % 2 : Nat)

theorem siblings_succ (lvl idx rest : Nat) : siblings P leaf lvl idx (rest + 1) =
    hashNode P leaf lvl (sibling idx) :: siblings P leaf (lvl + 1) (idx / 2) rest := by
  rw [siblings, List.range_succ_eq_map, List.map_cons, List.map_map, pow_zero, Nat.div_one, Nat.add_zero]
  congr 1
  apply List.map_congr_left
  intro i _
  rw [Function.comp_apply, Nat.succ_eq_add_one, Nat.pow_succ', ← Nat.div_div_eq_div_mul,
    show lvl + (i + 1) = lvl + 1 + i by omega]

theorem bits_succ (idx rest : Nat) : bits idx (rest + 1) = ((idx % 2 : Nat) : Int) :: bits
    (idx / 2) rest := by
  rw [bits, List.range_succ_eq_map, List.map_cons, List.map_map, pow_zero, Nat.div_one]
  congr 1
  apply List.map_congr_left
  intro i _
  rw [Function.comp_apply, Nat.succ_eq_add_one, Nat.pow_succ', ← Nat.div_div_eq_div_mul]

theorem proofLoop_spec (rest : Nat) {lvl idx : Nat} {level : List Int} (reached : AtLevel P leaf lvl level)
    (small : idx < 2 ^ 31) (path pathPos : List Int) :
    proofLoop P rest lvl (hashNode P leaf lvl idx) idx level path pathPos =
      some { root := hashNode P leaf (lvl + rest) (idx / 2 ^ rest)
             path := path ++ siblings P leaf lvl idx rest, pathPos := pathPos ++ bits idx rest } := by
  induction rest generalizing lvl idx level path pathPos with
  | zero => simp [proofLoop, siblings, bits]
  | succ rest ih =>
      obtain ⟨level', run, next⟩ := reached.compress
      have cur : (if ((idx % 2 : Nat) : Int) = 0
          then poseidon P [hashNode P leaf lvl idx,
            hashNode P leaf lvl (sibling idx)]
          else poseidon P [hashNode P leaf lvl (sibling idx),
            hashNode P leaf lvl idx]) =
          hashNode P leaf (lvl + 1) (idx / 2) := by
        simp only [hashNode_parent, Int.natCast_eq_zero]
      rw [proofLoop]
      simp only [and1_of_lt small, shr1_of_lt small, sibling_eq, sibAt_pads reached.pads, run, cur,
        Option.bind_eq_bind, Option.bind_some]
      rw [ih next (by omega), siblings_succ, bits_succ, show lvl + (rest + 1) = lvl + 1 + rest by omega,
        Nat.pow_succ', ← Nat.div_div_eq_div_mul, List.append_assoc, List.append_assoc, List.singleton_append,
        List.singleton_append]

end loops

section circuit

structure Evaluates {n : Nat} (P : List Fr → Fr) (m : MerkleTreeInclusionProof n) (root : Fr) : Prop where
  leaf : m.level 0 = m.leaf
  binary : ∀ i, m.pathIndices i * (1 - m.pathIndices i) = 0
  level : ∀ i, P (muxSwap (m.level i.castSucc) (m.pathElements i) (m.pathIndices i)) = m.level i.succ
  root : m.level (Fin.last n) = root

theorem evaluates_of_constraints {n : Nat} {H : IdealHash Fr} {P : List Fr → Fr}
    {m : MerkleTreeInclusionProof n}
    {root : Fr} (agree : ∀ xs x, H.hash xs = some x → P xs = x) (constraints : m.Constraints H root) :
    Evaluates P m root :=
  ⟨constraints.leaf, constraints.binary, fun i => agree _ _ (constraints.level i), constraints.root⟩

def MerkleProof.inclusion {n : Nat} (p : MerkleProof) (leaf : Int) (level : Fin (n + 1) → Fr) :
    MerkleTreeInclusionProof n where
  leaf := leaf
  pathIndices i := (p.pathPos[i.val]?.getD 0 : Int)
  pathElements i := (p.path[i.val]?.getD 0 : Int)
  level := level

variable {P : List Fr → Fr}

theorem cast_poseidon (x y : Int) : ((poseidon P [x, y] : Int) : Fr) = P [(x : Fr), (y : Fr)] := by
  rw [poseidon, Int.cast_natCast, ZMod.natCast_zmod_val]
  rfl

theorem hash_muxSwap (leaf : Nat → Int) (lvl idx : Nat) :
    P (muxSwap (hashNode P leaf lvl idx : Int)
      (hashNode P leaf lvl (sibling idx) : Int) ((idx % 2 : Nat) : Int)) =
      (hashNode P leaf (lvl + 1) (idx / 2) : Int) := by
  rw [hashNode_parent, muxSwap]
  rcases Nat.mod_two_eq_zero_or_one idx with left | right
  · simp [left, cast_poseidon]
  · simp [right, cast_poseidon]

theorem evaluates_iff {n index : Nat} {leaf : Nat → Int} {p : MerkleProof}
    (path : p.path = siblings P leaf 0 index n)
    (pathPos : p.pathPos = bits index n) (out : Fr) :
    (∃ level, Evaluates P (p.inclusion (n := n) (leaf index) level) out) ↔
      out = (hashNode P leaf n (index / 2 ^ n) : Int) := by
  have position (i : Fin n) : p.pathPos[i.val]?.getD 0 = (index / 2 ^ i.val % 2 : Nat) := by
    rw [pathPos, bits, List.getElem?_map, List.getElem?_range i.isLt]
    rfl
  have element (i : Fin n) : p.path[i.val]?.getD 0 =
      hashNode P leaf i.val (sibling (index / 2 ^ i.val)) := by
    rw [path, siblings, List.getElem?_map, List.getElem?_range i.isLt, Option.map_some,
      Option.getD_some, Nat.zero_add]
  have step (i : Fin n) : index / 2 ^ (i.val + 1) = index / 2 ^ i.val / 2 := by
    rw [Nat.pow_succ, Nat.div_div_eq_div_mul]
  have next (i : Fin n) : P (muxSwap (hashNode P leaf i.val (index / 2 ^ i.val) : Int)
      (p.path[i.val]?.getD 0 : Int) (p.pathPos[i.val]?.getD 0 : Int)) =
      (hashNode P leaf (i.val + 1) (index / 2 ^ (i.val + 1)) : Int) := by
    rw [position, element, step]
    exact hash_muxSwap leaf _ _
  constructor
  · rintro ⟨level, evaluates⟩
    have reached (k : Nat) (inside : k < n + 1) :
        level ⟨k, inside⟩ = (hashNode P leaf k (index / 2 ^ k) : Int) := by
      induction k with
      | zero =>
          rw [pow_zero, Nat.div_one]
          exact evaluates.leaf
      | succ k ih =>
          rw [← next ⟨k, by omega⟩, ← ih (by omega)]
          exact (evaluates.level ⟨k, by omega⟩).symm
    rw [← evaluates.root]
    exact reached n (by omega)
  · rintro rfl
    refine ⟨fun i => (hashNode P leaf i.val (index / 2 ^ i.val) : Int), ?_, ?_, next, rfl⟩
    · change ((hashNode P leaf 0 (index / 2 ^ 0) : Int) : Fr) = (leaf index : Int)
      rw [pow_zero, Nat.div_one]
      rfl
    · intro i
      change ((p.pathPos[i.val]?.getD 0 : Int) : Fr) * (1 - ((p.pathPos[i.val]?.getD 0 : Int) : Fr)) = 0
      rw [position]
      rcases Nat.mod_two_eq_zero_or_one (index / 2 ^ i.val) with left | right
      · rw [left]
        simp
      · rw [right]
        simp

end circuit

/-- Root, proof and template agree with the complete tree. -/
theorem census_proof_agrees (P : List Fr → Fr) {n : Nat} {leafs : List Int} {index : Nat}
    (inside : index < leafs.length) (fits : leafs.length ≤ 2 ^ n) (small : leafs.length < 2 ^ 31 - 1) :
    getMerkleRoot P n leafs = some (treeRoot P n leafs) ∧
    ∃ proof, getMerkleProof P n leafs index = some proof ∧ proof.root = treeRoot P n leafs ∧
      proof.path.length = n ∧ proof.pathPos.length = n ∧
      ∀ out, (∃ level, Evaluates P (proof.inclusion (n := n) leafs[index] level) out) ↔
        out = (treeRoot P n leafs : Int) := by
  have reached : AtLevel P (fun i => leafs[i]?.getD (poseidon P [0])) 0 leafs := ⟨small, fun _ => rfl⟩
  have found (i : Nat) (inside : i < leafs.length) : leafs[i]? = some (hashNode P
      (fun i => leafs[i]?.getD (poseidon P [0])) 0 i) := reached.pads.found inside
  have top : index / 2 ^ n = 0 := Nat.div_eq_of_lt (by omega)
  have root := rootLoop_spec n reached
  have proof := proofLoop_spec n reached (show index < 2 ^ 31 by omega) [] []
  rw [Nat.zero_add] at root proof
  rw [top] at proof
  refine ⟨?_, ⟨treeRoot P n leafs, siblings P (fun i => leafs[i]?.getD (poseidon P [0])) 0 index n,
    bits index n⟩, ?_, rfl, ?_, ?_, fun out => ?_⟩
  · rw [getMerkleRoot, found 0 (by omega)]
    exact root
  · rw [getMerkleProof, found index inside]
    exact proof
  · simp [siblings]
  · simp [bits]
  · have same : leafs[index] = leafs[index]?.getD (poseidon P [0]) := by
      rw [List.getElem?_eq_getElem inside, Option.getD_some]
    have iff := @evaluates_iff P n index (fun i => leafs[i]?.getD (poseidon P [0])) ⟨treeRoot P n leafs, _, _⟩
      rfl rfl out
    rw [top] at iff
    rw [same]
    exact iff

def sum (inputs : List Fr) : Fr := inputs.sum

theorem census_proof_agrees_three : getMerkleRoot sum 2 [5, 6, 7] = some (treeRoot sum 2 [5, 6, 7]) ∧
    ∃ proof, getMerkleProof sum 2 [5, 6, 7] 2 = some proof ∧ proof.root = treeRoot sum 2 [5, 6, 7] ∧
      proof.path.length = 2 ∧ proof.pathPos.length = 2 ∧
      ∀ out, (∃ level, Evaluates sum (proof.inclusion (n := 2) 7 level) out) ↔
        out = (treeRoot sum 2 [5, 6, 7] : Int) :=
  @census_proof_agrees sum 2 [5, 6, 7] 2 (by decide) (by decide) (by decide)

namespace LastLength

def leafs : List Int := List.replicate (2 ^ 31 - 2) 0 ++ [1]

theorem length_leafs : leafs.length = 2 ^ 31 - 1 := by
  rw [leafs, List.length_append, List.length_replicate, List.length_singleton]
  decide

theorem poseidon_zero (x : Int) (bit : x = 0 ∨ x = 1) :
    poseidon sum [x, 0] = x ∧ poseidon sum [0, x] = x := by
  have one : ((1 : Fr).val : Int) = 1 := by rw [ZMod.val_one]; rfl
  rcases bit with rfl | rfl
  · simp [poseidon, sum]
  · simpa [poseidon, sum] using one

theorem defaults_zero (lvl : Nat) : defaults sum lvl = 0 := by
  induction lvl with
  | zero => simp [defaults, poseidon, sum]
  | succ lvl ih => rw [defaults, ih, (poseidon_zero 0 (.inl rfl)).1]

theorem hashNode_zero (lvl idx : Nat) : hashNode sum (fun _ => 0) lvl idx = 0 := by
  induction lvl generalizing idx with
  | zero => rfl
  | succ lvl ih =>
      change poseidon sum [hashNode sum (fun _ => 0) lvl _, hashNode sum (fun _ => 0) lvl _] = 0
      rw [ih, ih, (poseidon_zero 0 (.inl rfl)).1]

theorem leafs_last (i : Nat) : leafs[i]?.getD 0 = if 2 ^ 31 - 2 = i then 1 else 0 := by
  generalize length : 2 ^ 31 - 2 = m
  rw [leafs, length]
  rcases Nat.lt_trichotomy i m with below | rfl | above
  · rw [List.getElem?_append_left (by simpa using below), List.getElem?_replicate, if_pos below,
      if_neg (by omega)]
    rfl
  · rw [List.getElem?_append_right (by simp), if_pos rfl]
    simp
  · rw [List.getElem?_eq_none (by simp; omega), if_neg (by omega)]
    rfl

theorem hashNode_last (lvl idx : Nat) : hashNode sum (fun i => leafs[i]?.getD (poseidon sum [0])) lvl idx =
    if (2 ^ 31 - 2) / 2 ^ lvl = idx then 1 else 0 := by
  have missing : poseidon sum [0] = 0 := defaults_zero 0
  rw [missing]
  induction lvl generalizing idx with
  | zero => rw [pow_zero, Nat.div_one, ← leafs_last]; rfl
  | succ lvl ih =>
      have halves (m : Nat) : m / 2 ^ (lvl + 1) = m / 2 ^ lvl / 2 := by
        rw [Nat.pow_succ, Nat.div_div_eq_div_mul]
      rw [halves]
      change poseidon sum [hashNode sum (fun i => leafs[i]?.getD 0) lvl (2 * idx),
        hashNode sum (fun i => leafs[i]?.getD 0) lvl (2 * idx + 1)] = _
      rw [ih, ih]
      generalize (2 ^ 31 - 2) / 2 ^ lvl = j
      by_cases left : j = 2 * idx
      · rw [if_pos left, if_neg (by omega), if_pos (by omega), (poseidon_zero 1 (.inr rfl)).1]
      · by_cases right : j = 2 * idx + 1
        · rw [if_neg left, if_pos right, if_pos (by omega), (poseidon_zero 1 (.inr rfl)).2]
        · rw [if_neg left, if_neg right, if_neg (by omega), (poseidon_zero 0 (.inl rfl)).1]

/-- The length overflows, so the level keeps its first half as it is. -/
theorem compress_leafs : compress sum (defaults sum 0) leafs = some (List.replicate (2 ^ 30 - 1) 0) := by
  have negative : shr1 ((leafs.length : Int) + 1) = -2 ^ 30 := by
    rw [length_leafs]
    decide
  have none : (-2 ^ 30 : Int).toNat = 0 := by decide
  have front : leafs.take ((leafs.length : Int) + -2 ^ 30).toNat = List.replicate (2 ^ 30 - 1) 0 := by
    have length : ((leafs.length : Int) + -2 ^ 30).toNat = 2 ^ 30 - 1 := by
      rw [length_leafs]
      decide
    rw [length, leafs, List.take_append_of_le_length (by rw [List.length_replicate]; decide),
      List.take_replicate]
    congr 1
  have sliced : slice leafs (-2 ^ 30) = List.replicate (2 ^ 30 - 1) 0 := by
    rw [slice, if_pos (by decide), front]
  rw [compress, negative, none, List.range_zero, List.foldlM_nil, ← sliced]
  rfl

theorem root_drops_last : leafs.length < 2 ^ 31 ∧ leafs.length ≤ 2 ^ 31 ∧
    getMerkleRoot sum 31 leafs = some 0 ∧ treeRoot sum 31 leafs = 1 := by
  have first : leafs[0]? = some 0 := by
    rw [leafs, List.getElem?_append_left (by rw [List.length_replicate]; decide), List.getElem?_replicate,
      if_pos (by decide)]
  have second : sibAt leafs (defaults sum 0) 1 = some 0 := by
    rw [sibAt, length_leafs, if_pos (by decide), show (1 : Int).toNat = 1 from rfl, leafs,
      List.getElem?_append_left (by rw [List.length_replicate]; decide), List.getElem?_replicate,
        if_pos (by decide)]
  have zeros : AtLevel sum (fun _ => 0) 1 (List.replicate (2 ^ 30 - 1) 0) := by
    refine ⟨?_, fun i => ?_⟩
    · rw [List.length_replicate]
      decide
    · change _ = hashNode sum (fun _ => 0) 1 i
      rw [hashNode_zero, defaults_zero, List.getElem?_replicate]
      split <;> rfl
  have rest := rootLoop_spec 30 zeros
  rw [hashNode_zero, hashNode_zero] at rest
  rw [length_leafs]
  refine ⟨by decide, by decide, ?_, ?_⟩
  · rw [getMerkleRoot, first, Option.bind_eq_bind, Option.bind_some, rootLoop, second, compress_leafs,
      Option.bind_eq_bind, Option.bind_some, Option.bind_eq_bind, Option.bind_some,
        (poseidon_zero 0 (.inl rfl)).1]
    exact rest
  · rw [treeRoot, hashNode_last]
    decide

end LastLength

end Mootvote.Helpers
