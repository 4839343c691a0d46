import Mathlib.Data.Nat.Bitwise
import Mootvote.Circom.Field
import Mootvote.Shared.SparseProof

set_option autoImplicit false

namespace Mootvote

open Shared SparseMerkle

-- The lowest `n` bytes of a number, the most significant one first.
def bytesBE : Nat → Nat → List UInt8
  | 0, _ => []
  | n + 1, x => bytesBE n (x / 256) ++ [UInt8.ofNat x]

def ofBytesBE (bs : List UInt8) : Nat := bs.foldl (fun acc b => acc * 256 + b.toNat) 0

@[simp] theorem length_bytesBE (n x : Nat) : (bytesBE n x).length = n := by
  induction n generalizing x with
  | zero => rfl
  | succ n ih => simp [bytesBE, ih]

theorem ofBytesBE_bytesBE (n x : Nat) : ofBytesBE (bytesBE n x) = x % 256 ^ n := by
  induction n generalizing x with
  | zero => simp [ofBytesBE, bytesBE, Nat.mod_one]
  | succ n ih =>
      have front := ih (x / 256)
      have split : x % 256 ^ (n + 1) = x % 256 + 256 * (x / 256 % 256 ^ n) := by
        rw [Nat.pow_succ', Nat.mod_mul]
      unfold ofBytesBE at front ⊢
      rw [bytesBE, List.foldl_append, front, List.foldl_cons, List.foldl_nil, UInt8.toNat_ofNat', split]
      omega

theorem bytesBE_getElem? {n j : Nat} (x : Nat) (inside : j < n) :
    (bytesBE n x)[n - 1 - j]? = some (UInt8.ofNat (x / 256 ^ j)) := by
  induction n generalizing x j with
  | zero => omega
  | succ n ih =>
      cases j with
      | zero => simp [bytesBE]
      | succ j =>
          rw [bytesBE, List.getElem?_append_left (by rw [length_bytesBE]; omega),
            show n + 1 - 1 - (j + 1) = n - 1 - j by omega, ih (x / 256) (by omega), Nat.pow_succ',
            Nat.div_div_eq_div_mul]

theorem bytesBE_add {n : Nat} (x k : Nat) : bytesBE n (x + 256 ^ n * k) = bytesBE n x := by
  induction n generalizing x k with
  | zero => rfl
  | succ n ih =>
      have upper : (x + 256 ^ (n + 1) * k) / 256 = x / 256 + 256 ^ n * k := by
        rw [Nat.pow_succ', Nat.mul_assoc, Nat.add_mul_div_left _ _ (by decide)]
      have lower : UInt8.ofNat (x + 256 ^ (n + 1) * k) = UInt8.ofNat x := by
        apply UInt8.toNat_inj.1
        rw [UInt8.toNat_ofNat', UInt8.toNat_ofNat', Nat.pow_succ', Nat.mul_assoc]
        exact Nat.add_mul_mod_self_left ..
      rw [bytesBE, upper, ih, lower, bytesBE]

theorem bytesBE_cons {n x : Nat} : bytesBE (n + 1) x = UInt8.ofNat (x / 256 ^ n) :: bytesBE n x := by
  induction n generalizing x with
  | zero => simp [bytesBE]
  | succ n ih =>
      rw [bytesBE, ih, List.cons_append, Nat.div_div_eq_div_mul, ← Nat.pow_succ']
      rfl

theorem bytesBE_inj {n x y : Nat} (left : x < 256 ^ n) (right : y < 256 ^ n) : bytesBE n x = bytesBE n y ↔ x = y := by
  refine ⟨fun same => ?_, congrArg _⟩
  have values := congrArg ofBytesBE same
  rwa [ofBytesBE_bytesBE, ofBytesBE_bytesBE, Nat.mod_eq_of_lt left, Nat.mod_eq_of_lt right] at values

namespace Word

def bytes (w : Word) : List UInt8 := bytesBE 32 w.toNat

def ofBytes (bs : List UInt8) : Word := BitVec.ofNat 256 (ofBytesBE bs)

@[simp] theorem length_bytes (w : Word) : w.bytes.length = 32 := length_bytesBE 32 w.toNat

@[simp] theorem ofBytes_bytes (w : Word) : ofBytes w.bytes = w := by
  apply BitVec.eq_of_toNat_eq
  have below := w.isLt
  rw [ofBytes, bytes, ofBytesBE_bytesBE, BitVec.toNat_ofNat, Nat.mod_mod_of_dvd _ (by decide),
    Nat.mod_eq_of_lt below]

end Word

namespace SmtCircom

-- Each bit is read from its byte, which lies in the key for the levels below 256.
def getPath (depth : Nat) (key : Word) : List Bool :=
  (List.range depth).map fun i => (key.bytes.getD (31 - i / 8) 0).toNat &&& 1 <<< (i % 8) != 0

theorem getPath_bit {i : Nat} (key : Word) (inside : i < 256) :
    ((key.bytes.getD (31 - i / 8) 0).toNat &&& 1 <<< (i % 8) != 0) = bit key i := by
  have found : key.bytes.getD (31 - i / 8) 0 = UInt8.ofNat (key.toNat / 256 ^ (i / 8)) := by
    rw [List.getD_eq_getElem?_getD, Word.bytes, bytesBE_getElem? key.toNat (by omega), Option.getD_some]
  have power : 256 ^ (i / 8) = 2 ^ (8 * (i / 8)) := by rw [Nat.pow_mul]
  have masked (n k : Nat) : (n &&& 2 ^ k != 0) = n.testBit k := by
    rw [Nat.and_two_pow]
    cases n.testBit k <;> simp
  rw [found, Nat.one_shiftLeft, masked, UInt8.toNat_ofNat', power, Nat.testBit_mod_two_pow,
    Nat.testBit_div_two_pow, Nat.mod_add_div]
  simp only [Nat.mod_lt i (by decide : 8 > 0), decide_true, Bool.true_and]
  rfl

theorem getPath_eq {depth : Nat} (key : Word) (bound : depth ≤ 256) :
    getPath depth key = (List.range depth).map (bit key) := by
  refine List.map_congr_left fun i member => ?_
  exact getPath_bit key (by have := List.mem_range.1 member; omega)

inductive Node where
  | middle (l r : Word)
  | leaf (k v : Word)
deriving DecidableEq

namespace Node

def encode : Node → List UInt8
  | .middle l r => 0 :: (l.bytes ++ r.bytes)
  | .leaf k v => 1 :: (k.bytes ++ v.bytes)

def decode (bs : List UInt8) : Option Node :=
  if bs.length ≠ 65 then none
  else
    let a := Word.ofBytes ((bs.drop 1).take 32)
    let b := Word.ofBytes (bs.drop 33)
    match bs.head? with
    | some 0 => some (.middle a b)
    | some 1 => some (.leaf a b)
    | _ => none

@[simp] theorem decode_encode (n : Node) : decode n.encode = some n := by
  cases n <;> simp [decode, encode]

-- A hash that Poseidon refuses has no key.
def key (H : IdealHash Word) : Node → Option Word
  | .leaf k v => leafHash H k v
  | .middle l r => H.hash [l, r]

variable {H : IdealHash Word}

theorem key_injective {n n' : Node} {h : Word} (left : n.key H = some h)
    (right : n'.key H = some h) : n = n' := by
  cases n <;> cases n' <;> have same := H.injective left right <;> simp_all

theorem key_ne_zero (n : Node) : n.key H ≠ some 0 := by
  cases n <;> exact H.ne_zero _

end Node

end SmtCircom

end Mootvote
