import Mathlib.Algebra.Group.Nat.Defs
import Mathlib.Data.Nat.BinaryRec
import Mathlib.Data.Nat.Basic
import Mathlib.Tactic.Common

set_option autoImplicit false

/-!
# Complete binary trees and their levels

A level is stored without the nodes over nothing but missing leaves, which are all the same.
-/

namespace Shared.CompleteTree

variable {A : Type} (combine : A → A → A)

def node (leaf : Nat → A) : (level index : Nat) → A
  | 0, i => leaf i
  | k + 1, i => combine (node leaf k (2 * i)) (node leaf k (2 * i + 1))

def blank (missing : A) : (level : Nat) → A
  | 0 => missing
  | k + 1 => combine (blank missing k) (blank missing k)

def sibling (i : Nat) : Nat := if i % 2 = 0 then i + 1 else i - 1

theorem node_parent (leaf : Nat → A) (k i : Nat) :
    node combine leaf (k + 1) (i / 2) =
      if i % 2 = 0 then combine (node combine leaf k i) (node combine leaf k (sibling i))
      else combine (node combine leaf k (sibling i)) (node combine leaf k i) := by
  rw [node, sibling]
  split
  case isTrue left => rw [show 2 * (i / 2) = i by omega]
  case isFalse right => rw [show 2 * (i / 2) = i - 1 by omega, show i - 1 + 1 = i by omega]

def Pads (stored : List A) (missing : A) (values : Nat → A) : Prop := ∀ i, stored[i]?.getD missing = values i

variable {combine} {stored stored' : List A} {missing : A} {values : Nat → A}

theorem Pads.beyond (pads : Pads stored missing values) {i : Nat} (outside : stored.length ≤ i) :
    values i = missing := by
  rw [← pads i, List.getElem?_eq_none outside, Option.getD_none]

theorem Pads.found (pads : Pads stored missing values) {i : Nat} (inside : i < stored.length) :
    stored[i]? = some (values i) := by
  rw [← pads i, List.getElem?_eq_getElem inside, Option.getD_some]

theorem Pads.pair (pads : Pads stored missing values) (length : stored'.length = (stored.length + 1) / 2)
    (paired : ∀ i < stored'.length, stored'[i]? = some (combine (values (2 * i)) (values (2 * i + 1)))) :
    Pads stored' (combine missing missing) fun i => combine (values (2 * i)) (values (2 * i + 1)) := by
  intro i
  by_cases inside : i < stored'.length
  · rw [paired i inside, Option.getD_some]
  · have left : values (2 * i) = missing := pads.beyond (by omega)
    have right : values (2 * i + 1) = missing := pads.beyond (by omega)
    simp only [List.getElem?_eq_none (show stored'.length ≤ i by omega), Option.getD_none, left, right]

section paths

/-- The number that the bits from `k` on spell, the lowest first. -/
def spelled (bits : Nat → Bool) : (rest k : Nat) → Nat
  | 0, _ => 0
  | rest + 1, k => Nat.bit (bits k) (spelled bits rest (k + 1))

theorem spelled_lt (bits : Nat → Bool) (rest k : Nat) : spelled bits rest k < 2 ^ rest := by
  induction rest generalizing k with
  | zero => simp [spelled]
  | succ rest ih =>
      have below := ih (k + 1)
      cases found : bits k <;> simp only [spelled, found, Nat.bit_true, Nat.bit_false, Nat.pow_succ] <;> omega

theorem testBit_spelled (bits : Nat → Bool) {rest i : Nat} (k : Nat) (inside : i < rest) :
    (spelled bits rest k).testBit i = bits (k + i) := by
  induction rest generalizing k i with
  | zero => omega
  | succ rest ih =>
      cases i with
      | zero => simp [spelled]
      | succ i =>
          have later := ih (k + 1) (Nat.lt_of_succ_lt_succ inside)
          simp only [spelled, Nat.testBit_succ, Nat.bit_div_two, later, Nat.add_right_comm, Nat.add_assoc]

variable {hashes : A → A → A → Prop} {nodes : Nat → Nat → A} {level element : Nat → A}
  {bits : Nat → Bool} {n : Nat}

/-- Without collisions, a path that ends in the root is a path of the tree. -/
theorem path_binds
    (injective : ∀ {x y x' y' z : A}, hashes x y z → hashes x' y' z → x = x' ∧ y = y')
    (tree : ∀ k i, k < n → i < 2 ^ (n - k - 1) →
      hashes (nodes k (2 * i)) (nodes k (2 * i + 1)) (nodes (k + 1) i))
    (climbs : ∀ k < n, if bits k then hashes (element k) (level k) (level (k + 1))
      else hashes (level k) (element k) (level (k + 1)))
    (root : level n = nodes n 0) {rest k : Nat} (height : k + rest = n) :
    level k = nodes k (spelled bits rest k) := by
  -- From the root down: equal parents have equal children.
  induction rest generalizing k with
  | zero => rw [← height, Nat.add_zero] at root; exact root
  | succ rest ih =>
      have parent := ih (k := k + 1) (by omega)
      have inside : spelled bits rest (k + 1) < 2 ^ (n - k - 1) := by
        have below := spelled_lt bits rest (k + 1)
        rwa [show n - k - 1 = rest by omega]
      have children := tree k (spelled bits rest (k + 1)) (by omega) inside
      have climb := climbs k (by omega)
      rw [parent] at climb
      cases side : bits k with
      | false =>
          simp only [side, Bool.false_eq_true, if_false] at climb
          simp only [spelled, side, Nat.bit_false]
          exact (injective climb children).1
      | true =>
          simp only [side, if_true] at climb
          simp only [spelled, side, Nat.bit_true]
          exact (injective climb children).2

end paths

end Shared.CompleteTree
