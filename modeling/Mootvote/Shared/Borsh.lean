import Mathlib.Algebra.GroupWithZero.Nat
import Mathlib.Data.Fin.Tuple.Basic
import Mathlib.Data.List.OfFn
import Mathlib.Tactic.Common

set_option autoImplicit false

/-!
# Borsh codecs

A value is read from the front of the bytes, and what is behind it is left.
-/

namespace Shared

/-- Reading what was written gives the value, whatever follows it. -/
structure Codec (A : Type) where
  serialize : A → List UInt8
  deserialize : List UInt8 → Option (A × List UInt8)
  read_back : ∀ a rest, deserialize (serialize a ++ rest) = some (a, rest)

def bytesLE : Nat → Nat → List UInt8
  | 0, _ => []
  | n + 1, x => UInt8.ofNat x :: bytesLE n (x / 256)

def ofBytesLE : List UInt8 → Nat
  | [] => 0
  | b :: bs => b.toNat + 256 * ofBytesLE bs

@[simp] theorem length_bytesLE (n x : Nat) : (bytesLE n x).length = n := by
  induction n generalizing x with
  | zero => rfl
  | succ n ih => simp [bytesLE, ih]

theorem ofBytesLE_bytesLE (n x : Nat) : ofBytesLE (bytesLE n x) = x % 256 ^ n := by
  induction n generalizing x with
  | zero => simp [ofBytesLE, bytesLE, Nat.mod_one]
  | succ n ih =>
      have split : x % 256 ^ (n + 1) = x % 256 + 256 * (x / 256 % 256 ^ n) := by
        rw [Nat.pow_succ', Nat.mod_mul]
      rw [bytesLE, ofBytesLE, ih, UInt8.toNat_ofNat', split]

namespace Codec

variable {A B : Type}

def fixed (n : Nat) (write : A → List UInt8) (read : List UInt8 → A) (length : ∀ a, (write a).length = n)
    (read_write : ∀ a, read (write a) = a) : Codec A where
  serialize := write
  deserialize bs := if n ≤ bs.length then some (read (bs.take n), bs.drop n) else none
  read_back a rest := by
    have enough : n ≤ (write a ++ rest).length := by simp [length]
    have front : (write a ++ rest).take n = write a := List.take_left' (length a)
    have back : (write a ++ rest).drop n = rest := List.drop_left' (length a)
    rw [if_pos enough, front, back, read_write]

def u64 : Codec UInt64 :=
  fixed 8 (fun x => bytesLE 8 x.toNat) (fun bs => UInt64.ofNat (ofBytesLE bs))
    (fun _ => length_bytesLE 8 _) fun x => by
    apply UInt64.toNat_inj.1
    rw [ofBytesLE_bytesLE, UInt64.toNat_ofNat']
    have below := x.toNat_lt
    omega

def u8 : Codec UInt8 :=
  fixed 1 (fun x => [x]) (fun bs => bs.headD 0) (fun _ => rfl) fun _ => rfl

def u32 : Codec UInt32 :=
  fixed 4 (fun x => bytesLE 4 x.toNat) (fun bs => UInt32.ofNat (ofBytesLE bs))
    (fun _ => length_bytesLE 4 _) fun x => by
    apply UInt32.toNat_inj.1
    rw [ofBytesLE_bytesLE, UInt32.toNat_ofNat']
    have below := x.toNat_lt
    omega

def readMany (c : Codec A) : Nat → List UInt8 → Option (List A × List UInt8)
  | 0, bs => some ([], bs)
  | n + 1, bs => do
      let (a, bs) ← c.deserialize bs
      let (as, bs) ← readMany c n bs
      return (a :: as, bs)

theorem readMany_flatMap (c : Codec A) (xs : List A) (rest : List UInt8) :
    c.readMany xs.length (xs.flatMap c.serialize ++ rest) = some (xs, rest) := by
  induction xs with
  | nil => rfl
  | cons x xs ih =>
      rw [List.flatMap_cons, List.append_assoc, List.length_cons, readMany, c.read_back]
      simp [ih]

/-- A vector that a length of four bytes counts. -/
def vec (c : Codec A) : Codec { xs : List A // xs.length < 2 ^ 32 } where
  serialize xs := u32.serialize (UInt32.ofNat xs.val.length) ++ xs.val.flatMap c.serialize
  deserialize bs := do
    let (n, bs) ← u32.deserialize bs
    let (xs, bs) ← c.readMany n.toNat bs
    if fits : xs.length < 2 ^ 32 then some (⟨xs, fits⟩, bs) else none
  read_back xs rest := by
    have count : (UInt32.ofNat xs.val.length).toNat = xs.val.length := by
      rw [UInt32.toNat_ofNat']
      exact Nat.mod_eq_of_lt xs.property
    rw [List.append_assoc, u32.read_back]
    simp only [Option.bind_eq_bind, Option.bind_some, count, c.readMany_flatMap]
    exact dif_pos xs.property

def utf8 (s : String) : List UInt8 := s.toByteArray.data.toList

def ofUtf8 (bs : List UInt8) : Option String := String.fromUTF8? ⟨bs.toArray⟩

@[simp] theorem length_utf8 (s : String) : (utf8 s).length = s.utf8ByteSize := rfl

theorem ofUtf8_utf8 (s : String) : ofUtf8 (utf8 s) = some s := by
  have whole : (⟨(utf8 s).toArray⟩ : ByteArray) = s.toByteArray := rfl
  rw [ofUtf8, whole, String.fromUTF8?, dif_pos s.isValidUTF8]
  rfl

def string : Codec { s : String // s.utf8ByteSize < 2 ^ 32 } where
  serialize s := u8.vec.serialize ⟨utf8 s.val, s.property⟩
  deserialize bs := do
    let (bytes, bs) ← u8.vec.deserialize bs
    let s ← ofUtf8 bytes.val
    if fits : s.utf8ByteSize < 2 ^ 32 then some (⟨s, fits⟩, bs) else none
  read_back s rest := by
    rw [u8.vec.read_back]
    simp only [Option.bind_eq_bind, Option.bind_some, ofUtf8_utf8]
    exact dif_pos s.property

def pair (c : Codec A) (d : Codec B) : Codec (A × B) where
  serialize p := c.serialize p.1 ++ d.serialize p.2
  deserialize bs := do
    let (a, bs) ← c.deserialize bs
    let (b, bs) ← d.deserialize bs
    return ((a, b), bs)
  read_back p rest := by
    rw [List.append_assoc, c.read_back]
    simp [d.read_back]

def map (c : Codec A) (build : A → B) (fields : B → A)
    (build_fields : ∀ b, build (fields b) = b) : Codec B where
  serialize b := c.serialize (fields b)
  deserialize bs := (c.deserialize bs).map fun (a, bs) => (build a, bs)
  read_back b rest := by
    rw [c.read_back]
    simp only [Option.map_some, build_fields]

local instance (priority := 2000) neZero_succ (n : Nat) : NeZero (n + 1) := ⟨Nat.succ_ne_zero n⟩

def array (c : Codec A) : (n : Nat) → Codec (Fin n → A)
  | 0 =>
    { serialize := fun _ => []
      deserialize := fun bs => some (Fin.elim0, bs)
      read_back := fun f _ => by rw [List.nil_append, Subsingleton.elim f Fin.elim0] }
  | n + 1 =>
    (c.pair (array c n)).map (fun (a, f) => Fin.cons a f) (fun f => (f 0, Fin.tail f))
      fun f => Fin.cons_self_tail f

theorem serialize_array (c : Codec A) {n : Nat} (f : Fin n → A) :
    (c.array n).serialize f = (List.ofFn f).flatMap c.serialize := by
  induction n with
  | zero => rfl
  | succ n ih =>
      rw [List.ofFn_succ, List.flatMap_cons]
      change c.serialize (f 0) ++ (c.array n).serialize (Fin.tail f) = _
      rw [ih]
      rfl

section length

variable {c : Codec A} {d : Codec B}

@[simp] theorem length_u64 (x : UInt64) : (u64.serialize x).length = 8 := length_bytesLE 8 _

@[simp] theorem length_u8 (x : UInt8) : (u8.serialize x).length = 1 := rfl

@[simp] theorem length_u32 (x : UInt32) : (u32.serialize x).length = 4 := length_bytesLE 4 _

@[simp] theorem length_pair (p : A × B) :
    ((c.pair d).serialize p).length = (c.serialize p.1).length + (d.serialize p.2).length := List.length_append

@[simp] theorem length_map {build : A → B} {fields : B → A} {build_fields : ∀ b, build (fields b) = b} (b : B) :
    ((c.map build fields build_fields).serialize b).length = (c.serialize (fields b)).length := rfl

theorem length_vec {n : Nat} (each : ∀ a, (c.serialize a).length = n)
    (xs : { xs : List A // xs.length < 2 ^ 32 }) : (c.vec.serialize xs).length = 4 + n * xs.val.length := by
  have values (as : List A) : (as.flatMap c.serialize).length = n * as.length := by
    induction as with
    | nil => rfl
    | cons a as ih =>
        rw [List.flatMap_cons, List.length_append, each, ih, List.length_cons]
        rw [Nat.mul_succ, Nat.add_comm]
  rw [vec, List.length_append, length_u32, values]

@[simp] theorem length_string (s : { s : String // s.utf8ByteSize < 2 ^ 32 }) :
    (string.serialize s).length = 4 + s.val.utf8ByteSize := by
  rw [string, length_vec length_u8, length_utf8, Nat.one_mul]

end length

end Codec

end Shared
