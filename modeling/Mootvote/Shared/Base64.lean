import Mootvote.Shared.JsonText

set_option autoImplicit false

/-!
# Base64

Texts without padding, or whose padding is not canonical, are left to the caller.
-/

namespace Shared.Base64

def alphabet : Text := ascii "ABCDEFGHIJKLMNOPQRSTUVWXYZabcdefghijklmnopqrstuvwxyz0123456789+/"

def pad : UInt16 := unit '='

def sextet (n : Nat) : UInt16 := alphabet.getD n pad

def encode : List UInt8 → Text
  | [] => []
  | [a] => [sextet (a.toNat / 4), sextet (a.toNat % 4 * 16), pad, pad]
  | [a, b] =>
      [sextet (a.toNat / 4), sextet (a.toNat % 4 * 16 + b.toNat / 16), sextet (b.toNat % 16 * 4), pad]
  | a :: b :: c :: bs =>
      sextet (a.toNat / 4) :: sextet (a.toNat % 4 * 16 + b.toNat / 16) ::
        sextet (b.toNat % 16 * 4 + c.toNat / 64) :: sextet (c.toNat % 64) :: encode bs

def ofSextet (c : UInt16) : Option Nat := alphabet.idxOf? c

def decode : Text → Option (List UInt8)
  | [] => some []
  | p :: q :: r :: s :: t => do
      let p ← ofSextet p
      let q ← ofSextet q
      if t = [] ∧ r = pad ∧ s = pad then
        if q % 16 = 0 then some [UInt8.ofNat (p * 4 + q / 16)] else none
      else do
        let r ← ofSextet r
        if t = [] ∧ s = pad then
          if r % 4 = 0 then some [UInt8.ofNat (p * 4 + q / 16), UInt8.ofNat (q % 16 * 16 + r / 4)] else none
        else do
          let s ← ofSextet s
          (decode t).map fun bs =>
            UInt8.ofNat (p * 4 + q / 16) :: UInt8.ofNat (q % 16 * 16 + r / 4) ::
              UInt8.ofNat (r % 4 * 64 + s) :: bs
  | _ => none

theorem ofSextet_sextet {n : Nat} (six : n < 64) : ofSextet (sextet n) = some n := by
  have all : ∀ n < 64, ofSextet (sextet n) = some n := by decide +kernel
  exact all n six

theorem sextet_ne_pad {n : Nat} (six : n < 64) : sextet n ≠ pad := by
  have all : ∀ n < 64, sextet n ≠ pad := by decide +kernel
  exact all n six

theorem ofNat_eq {n : Nat} {b : UInt8} (same : n = b.toNat) : UInt8.ofNat n = b := by
  rw [same, UInt8.ofNat_toNat]

theorem decode_encode (bs : List UInt8) : decode (encode bs) = some bs := by
  induction bs using encode.induct with
  | case1 => rfl
  | case2 a =>
      have below := a.toNat_lt
      rw [encode, decode, ofSextet_sextet (by omega), ofSextet_sextet (by omega)]
      simp only [Option.bind_eq_bind, Option.bind_some, and_self, if_true]
      rw [if_pos (by omega), ofNat_eq (b := a) (by omega)]
  | case3 a b =>
      have belowA := a.toNat_lt
      have belowB := b.toNat_lt
      have noPad := sextet_ne_pad (n := b.toNat % 16 * 4) (by omega)
      rw [encode, decode, ofSextet_sextet (by omega), ofSextet_sextet (by omega)]
      simp only [Option.bind_eq_bind, Option.bind_some, noPad, false_and, and_false, if_false,
        and_self, if_true]
      rw [ofSextet_sextet (by omega), Option.bind_some, if_pos (by omega), ofNat_eq (b := a) (by omega),
        ofNat_eq (b := b) (by omega)]
  | case4 a b c bs ih =>
      have belowA := a.toNat_lt
      have belowB := b.toNat_lt
      have belowC := c.toNat_lt
      have noPad := sextet_ne_pad (n := b.toNat % 16 * 4 + c.toNat / 64) (by omega)
      have noPad' := sextet_ne_pad (n := c.toNat % 64) (by omega)
      rw [encode, decode, ofSextet_sextet (by omega), ofSextet_sextet (by omega)]
      simp only [Option.bind_eq_bind, Option.bind_some, noPad, noPad', and_false, if_false]
      rw [ofSextet_sextet (by omega), Option.bind_some, ofSextet_sextet (by omega), Option.bind_some, ih,
        Option.map_some, ofNat_eq (b := a) (by omega), ofNat_eq (b := b) (by omega),
        ofNat_eq (b := c) (by omega)]

end Shared.Base64
