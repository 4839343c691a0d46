import Mathlib.NumberTheory.LucasPrimality
import Mathlib.Data.List.Prime
import Mathlib.Data.Nat.Log

set_option autoImplicit false

/-!
# Primes by evaluation

Lucas's test with the factors of `p - 1` at hand, in a form that the kernel evaluates.
-/

namespace Shared

-- `acc * a ^ n % m`, where `n` has so many bits.
def powMod (m : Nat) : Nat → Nat → Nat → Nat → Nat
  | 0, _, _, acc => acc % m
  | bits + 1, a, n, acc => powMod m bits (a * a % m) (n / 2) (if n % 2 = 1 then acc * a % m else acc)

theorem powMod_eq {m bits : Nat} : ∀ {a n acc : Nat}, n < 2 ^ bits →
    powMod m bits a n acc = acc * a ^ n % m := by
  induction bits with
  | zero =>
      intro a n acc small
      obtain rfl : n = 0 := by simpa using small
      simp [powMod]
  | succ bits ih =>
      intro a n acc small
      have half : n / 2 < 2 ^ bits := by
        rw [Nat.pow_succ] at small
        omega
      have square : (a * a % m) ^ (n / 2) % m = (a * a) ^ (n / 2) % m := (Nat.pow_mod ..).symm
      have halves : (a * a) ^ (n / 2) * a ^ (n % 2) = a ^ n := by
        rw [← pow_two, ← pow_mul, ← pow_add, Nat.div_add_mod]
      rw [powMod, ih half, Nat.mul_mod, square, ← Nat.mul_mod]
      rcases Nat.mod_two_eq_zero_or_one n with even | odd
      · rw [even, pow_zero, mul_one] at halves
        rw [even, if_neg (by decide), halves]
      · rw [odd, pow_one] at halves
        rw [if_pos odd, ← halves, Nat.mod_mul_mod, mul_assoc, mul_comm a]

/-- Lucas's test: `a` has order `p - 1`. -/
def lucasTest (p a : Nat) (factors : List Nat) : Bool :=
  1 < p ∧ factors.prod = p - 1 ∧ powMod p (p.log2 + 1) a (p - 1) 1 = 1 ∧
    ∀ f ∈ factors, powMod p (p.log2 + 1) a ((p - 1) / f) 1 ≠ 1

theorem prime_of_lucasTest {p a : Nat} {factors : List Nat} (primes : ∀ f ∈ factors, f.Prime)
    (test : lucasTest p a factors) : p.Prime := by
  obtain ⟨large, product, power, others⟩ := of_decide_eq_true test
  have pow_eq_one_iff (n : Nat) (below : n ≤ p - 1) : (a : ZMod p) ^ n = 1 ↔
    powMod p (p.log2 + 1) a n 1 = 1 := by
    have bits : n < 2 ^ (p.log2 + 1) := lt_of_le_of_lt (below.trans (Nat.sub_le p 1)) (Nat.lt_log2_self)
    have one : 1 % p = 1 := Nat.mod_eq_of_lt large
    rw [powMod_eq bits, Nat.one_mul, ← Nat.cast_pow, ← Nat.cast_one, ZMod.natCast_eq_natCast_iff', one]
  refine lucas_primality p a ((pow_eq_one_iff _ (Nat.le_refl _)).2 power) fun f prime divides => ?_
  rw [← product] at divides
  have isFactor : f ∈ factors := mem_list_primes_of_dvd_prod prime.prime (fun g inside =>
    (primes g inside).prime) divides
  rw [ne_eq, pow_eq_one_iff _ (Nat.div_le_self _ _)]
  exact others f isFactor

end Shared
