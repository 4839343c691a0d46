import Mathlib.Data.List.Nodup
import Mathlib.Data.List.Induction

set_option autoImplicit false

/-!
# Hashes without collisions on the preimages at hand

No function from lists over a finite type to that type is injective, so "the hash is injective"
is stated about the preimages that the parties have evaluated: the hash is a partial function,
defined on those preimages, injective there and never zero.
-/

namespace Shared

/-- A hash on the preimages evaluated so far, among which no two collide and none hashes to zero. -/
structure IdealHash (W : Type) [Zero W] where
  hash : List W → Option W
  injective : ∀ {xs ys : List W} {h : W}, hash xs = some h → hash ys = some h → xs = ys
  ne_zero : ∀ xs : List W, hash xs ≠ some 0

namespace IdealHash

variable {W : Type} [Zero W]

/-- Absorb the values one by one, starting from `acc`: the digest of a hash chain. -/
def chain (H : IdealHash W) : W → List W → Option W
  | acc, [] => some acc
  | acc, x :: xs => do
      let next ← H.hash [acc, x]
      H.chain next xs

variable (H : IdealHash W)

@[simp] theorem chain_nil (acc : W) : H.chain acc [] = some acc := rfl

@[simp] theorem chain_cons (acc x : W) (xs : List W) :
    H.chain acc (x :: xs) = (H.hash [acc, x]).bind fun next => H.chain next xs := rfl

theorem chain_append (acc : W) (xs ys : List W) :
    H.chain acc (xs ++ ys) = (H.chain acc xs).bind fun mid => H.chain mid ys := by
  induction xs generalizing acc with
  | nil => rfl
  | cons x xs ih => cases h : H.hash [acc, x] <;> simp [h, ih]

theorem chain_snoc (acc : W) (xs : List W) (x : W) :
    H.chain acc (xs ++ [x]) = (H.chain acc xs).bind fun mid => H.hash [mid, x] := by
  rw [chain_append]
  cases H.chain acc xs with
  | none => rfl
  | some mid => cases h : H.hash [mid, x] <;> simp [h]

theorem chain_ne_zero (acc : W) (xs : List W) (x : W) : H.chain acc (xs ++ [x]) ≠ some 0 := by
  rw [chain_snoc]
  cases h : H.chain acc xs with
  | none => simp
  | some mid => simpa [h] using H.ne_zero [mid, x]

theorem chain_zero_iff (xs : List W) : H.chain 0 xs = some 0 ↔ xs = [] := by
  constructor
  · intro digest
    rcases List.eq_nil_or_concat' xs with rfl | ⟨front, last, rfl⟩
    · rfl
    · exact absurd digest (H.chain_ne_zero 0 front last)
  · rintro rfl
    rfl

theorem chain_injective {xs ys : List W} {h : W}
    (left : H.chain 0 xs = some h) (right : H.chain 0 ys = some h) : xs = ys := by
  -- Both chains are peeled from their last value; a length mismatch would give digest zero.
  induction xs using List.reverseRecOn generalizing ys h with
  | nil =>
      rw [chain_nil, Option.some.injEq] at left
      subst left
      exact ((H.chain_zero_iff ys).1 right).symm
  | append_singleton front last ih =>
      rcases List.eq_nil_or_concat' ys with rfl | ⟨front', last', rfl⟩
      · rw [chain_nil, Option.some.injEq] at right
        subst right
        exact absurd left (H.chain_ne_zero 0 front last)
      · rw [chain_snoc, Option.bind_eq_some_iff] at left right
        obtain ⟨mid, leftFront, leftLast⟩ := left
        obtain ⟨mid', rightFront, rightLast⟩ := right
        have same := H.injective leftLast rightLast
        simp only [List.cons.injEq, and_true] at same
        obtain ⟨rfl, rfl⟩ := same
        rw [ih leftFront rightFront]

def ofTable [DecidableEq W] (table : List (List W × W))
    (distinct : (table.map Prod.snd).Nodup) (nonzero : 0 ∉ table.map Prod.snd) : IdealHash W where
  hash xs := (table.find? fun entry => entry.1 = xs).map Prod.snd
  injective := by
    intro xs ys h left right
    simp only [Option.map_eq_some_iff] at left right
    obtain ⟨entry, found, rfl⟩ := left
    obtain ⟨entry', found', same⟩ := right
    have member := List.mem_of_find?_eq_some found
    have member' := List.mem_of_find?_eq_some found'
    have equal := List.inj_on_of_nodup_map distinct member' member same
    have left := List.find?_some found
    have right := List.find?_some found'
    simp only [decide_eq_true_eq] at left right
    rw [← left, ← right, equal]
  ne_zero := by
    intro xs zero
    simp only [Option.map_eq_some_iff] at zero
    obtain ⟨entry, found, zero⟩ := zero
    exact nonzero (zero ▸ List.mem_map_of_mem (List.mem_of_find?_eq_some found))

end IdealHash

end Shared
