import Mathlib.Data.Nat.Digits.Defs
import Mathlib.Tactic.Common

set_option autoImplicit false

namespace Shared

def hexEncode (bytes : List UInt8) : List Char :=
  bytes.flatMap fun b => [Nat.digitChar (b.toNat / 16), Nat.digitChar (b.toNat % 16)]

def hexVal (c : Char) : Option Nat :=
  if '0' ≤ c ∧ c ≤ '9' then some (c.toNat - 48)
  else if 'a' ≤ c ∧ c ≤ 'f' then some (c.toNat - 87)
  else if 'A' ≤ c ∧ c ≤ 'F' then some (c.toNat - 55)
  else none

def hexFold (x : Nat) (hex : List Char) : Option Nat := hex.foldlM (fun x c => (hexVal c).map fun d => x * 16 + d) x

theorem hexVal_digitChar {d : Nat} (digit : d < 16) : hexVal (Nat.digitChar d) = some d := by
  have all : ∀ d < 16, hexVal (Nat.digitChar d) = some d := by decide
  exact all d digit

theorem byte_halves (b : UInt8) :
    b.toNat / 16 < 16 ∧ b.toNat % 16 < 16 ∧ b.toNat / 16 * 16 + b.toNat % 16 = b.toNat := by
  have below := b.toNat_lt
  omega

theorem hexFold_hexEncode (bytes : List UInt8) (x : Nat) :
    hexFold x (hexEncode bytes) = some (bytes.foldl (fun acc b => acc * 256 + b.toNat) x) := by
  induction bytes generalizing x with
  | nil => rfl
  | cons b bytes ih =>
      obtain ⟨high, low, whole⟩ := byte_halves b
      have shifted : (x * 16 + b.toNat / 16) * 16 + b.toNat % 16 = x * 256 + b.toNat := by omega
      change hexFold x (Nat.digitChar (b.toNat / 16) :: Nat.digitChar (b.toNat % 16) :: hexEncode bytes) = _
      rw [hexFold, List.foldlM_cons, hexVal_digitChar high, Option.map_some, Option.bind_eq_bind, Option.bind_some,
        List.foldlM_cons, hexVal_digitChar low, Option.map_some, Option.bind_eq_bind, Option.bind_some, shifted]
      exact ih _

end Shared
