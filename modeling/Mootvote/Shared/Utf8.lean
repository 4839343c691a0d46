import Mathlib.Data.List.Infix
import Mathlib.Tactic.Common

set_option autoImplicit false

/-!
# Strings and their bytes

A string is the list of its characters. What looks for ASCII text in its bytes finds it in its characters.
-/

namespace Shared.Utf8

def bytes (s : List Char) : List UInt8 := s.flatMap String.utf8EncodeChar

def Ascii (c : Char) : Prop := c.val.toNat < 128

instance (c : Char) : Decidable (Ascii c) := inferInstanceAs (Decidable (_ < _))

def byte (c : Char) : UInt8 := UInt8.ofNat c.val.toNat

/-- Cut at a byte offset; no offset lies inside a character or behind the end. -/
def splitAt : List Char → Nat → Option (List Char × List Char)
  | s, 0 => some ([], s)
  | [], _ + 1 => none
  | c :: s, n + 1 =>
      if c.utf8Size ≤ n + 1 then (splitAt s (n + 1 - c.utf8Size)).map fun (front, rest) => (c :: front, rest)
      else none

section encoding

variable {c d : Char} {p s t : List Char}

theorem bytes_cons : bytes (c :: s) = String.utf8EncodeChar c ++ bytes s := List.flatMap_cons

theorem bytes_singleton : bytes [c] = String.utf8EncodeChar c := List.flatMap_singleton ..

theorem bytes_append : bytes (s ++ t) = bytes s ++ bytes t := List.flatMap_append

theorem encode_ascii (ascii : Ascii c) : String.utf8EncodeChar c = [byte c] := by
  have low : c.val.toNat ≤ 127 := Nat.le_of_lt_succ ascii
  simp only [String.utf8EncodeChar, if_pos low, byte]

theorem byte_toNat (ascii : Ascii c) : (byte c).toNat = c.val.toNat := by
  have low : c.val.toNat < 128 := ascii
  rw [byte, UInt8.toNat_ofNat']
  exact Nat.mod_eq_of_lt (by omega)

theorem byte_inj (left : Ascii c) (right : Ascii d) (same : byte c = byte d) : c = d := by
  have values : c.val.toNat = d.val.toNat := by rw [← byte_toNat left, ← byte_toNat right, same]
  exact Char.ext (UInt32.toNat_inj.1 values)

theorem encode_wide (wide : ¬Ascii c) : ∀ b ∈ String.utf8EncodeChar c, 128 ≤ b.toNat := by
  have high : ¬c.val.toNat ≤ 127 := fun low => wide (Nat.lt_succ_of_le low)
  simp only [String.utf8EncodeChar, if_neg high]
  split_ifs <;> simp <;> omega

theorem byte_lt (ascii : Ascii c) : (byte c).toNat < 128 := byte_toNat ascii ▸ ascii

theorem mem_encode (ascii : Ascii c) (found : byte c ∈ String.utf8EncodeChar d) : d = c := by
  by_cases other : Ascii d
  · rw [encode_ascii other, List.mem_singleton] at found
    exact byte_inj other ascii found.symm
  · have high := encode_wide other _ found
    have low := byte_lt ascii
    omega

theorem length_le_bytes : s.length ≤ (bytes s).length := by
  induction s with
  | nil => exact Nat.zero_le _
  | cons c s ih =>
      have width : 0 < c.utf8Size := c.utf8Size_pos
      rw [bytes_cons, List.length_append, String.length_utf8EncodeChar, List.length_cons]
      omega

end encoding

section search

variable {c d : Char} {p s t : List Char}

theorem bytes_prefix_iff (ascii : ∀ c ∈ p, Ascii c) : bytes p <+: bytes s ↔ p <+: s := by
  refine ⟨fun front => ?_, fun ⟨rest, same⟩ => ⟨bytes rest, by rw [← bytes_append, same]⟩⟩
  induction p generalizing s with
  | nil => exact List.nil_prefix
  | cons c p ih =>
      rw [List.forall_mem_cons] at ascii
      rw [bytes_cons, encode_ascii ascii.1] at front
      cases s with
      | nil => simp [bytes] at front
      | cons d s =>
          -- The first byte of `d` is the whole of `c`.
          have first : d = c := by
            obtain ⟨rest, same⟩ := front
            rw [bytes_cons] at same
            obtain ⟨b, more, split⟩ := List.exists_cons_of_ne_nil (String.utf8EncodeChar_ne_nil (c := d))
            rw [split] at same
            obtain rfl := (List.cons.inj same).1
            exact mem_encode ascii.1 (split ▸ List.mem_cons_self)
          subst first
          rw [bytes_cons, encode_ascii ascii.1, List.prefix_append_right_inj] at front
          exact (List.prefix_cons_inj d).2 (ih ascii.2 front)

theorem bytes_suffix_iff (ascii : ∀ c ∈ p, Ascii c) : bytes p <:+ bytes s ↔ p <:+ s := by
  refine ⟨fun back => ?_, fun ⟨front, same⟩ => ⟨bytes front, by rw [← bytes_append, same]⟩⟩
  induction p using List.reverseRecOn generalizing s with
  | nil => exact List.nil_suffix
  | append_singleton p c ih =>
      have isLast : Ascii c := ascii c (by simp)
      obtain ⟨front, same⟩ := back
      rw [bytes_append, bytes_singleton, encode_ascii isLast, ← List.append_assoc] at same
      rcases List.eq_nil_or_concat s with rfl | ⟨s, d, rfl⟩
      · simp [bytes] at same
      · rw [List.concat_eq_append, bytes_append, bytes_singleton] at same
        -- The last byte of `d` is the whole of `c`.
        have nonempty : String.utf8EncodeChar d ≠ [] := String.utf8EncodeChar_ne_nil
        have last : d = c := by
          have split := List.dropLast_append_getLast nonempty
          rw [← split, ← List.append_assoc, List.append_singleton_inj] at same
          exact mem_encode isLast (same.2 ▸ List.getLast_mem nonempty)
        subst last
        rw [encode_ascii isLast, List.append_singleton_inj] at same
        obtain ⟨start, rfl⟩ := ih (fun c inside => ascii c (List.mem_append_left _ inside)) ⟨front, same.1⟩
        exact ⟨start, by simp⟩

theorem takeWhile_bytes (ascii : Ascii c) :
    (bytes s).takeWhile (· ≠ byte c) = bytes (s.takeWhile (· ≠ c)) ∧
      (bytes s).dropWhile (· ≠ byte c) = bytes (s.dropWhile (· ≠ c)) := by
  induction s with
  | nil => exact ⟨rfl, rfl⟩
  | cons d s ih =>
      by_cases same : d = c
      · subst same
        simp [encode_ascii ascii, bytes]
      · have passed : ∀ b ∈ String.utf8EncodeChar d, decide (b ≠ byte c) = true := by
          intro b inside
          rw [decide_eq_true_eq]
          rintro rfl
          exact same (mem_encode ascii inside)
        rw [bytes_cons, List.takeWhile_append_of_pos passed, List.dropWhile_append_of_pos passed, ih.1, ih.2]
        simp [same, bytes_cons]

theorem mem_bytes_iff (ascii : Ascii c) : byte c ∈ bytes s ↔ c ∈ s := by
  rw [bytes, List.mem_flatMap]
  constructor
  · rintro ⟨d, inside, found⟩
    exact mem_encode ascii found ▸ inside
  · exact fun inside => ⟨c, inside, by rw [encode_ascii ascii, List.mem_singleton]⟩

theorem splitAt_append : splitAt (s ++ t) (bytes s).length = some (s, t) := by
  induction s with
  | nil => cases t <;> rfl
  | cons c s ih =>
      have width : 0 < c.utf8Size := c.utf8Size_pos
      have length : (bytes (c :: s)).length = c.utf8Size + (bytes s).length := by
        rw [bytes_cons, List.length_append, String.length_utf8EncodeChar]
      obtain ⟨n, succ⟩ : ∃ n, c.utf8Size + (bytes s).length = n + 1 :=
        ⟨c.utf8Size + (bytes s).length - 1, by omega⟩
      have rest : n + 1 - c.utf8Size = (bytes s).length := by omega
      rw [length, succ, List.cons_append, splitAt, if_pos (by omega), rest, ih]
      rfl

theorem bytes_eq_nil_iff : bytes s = [] ↔ s = [] := by
  refine ⟨fun empty => List.eq_nil_of_length_eq_zero ?_, fun empty => by rw [empty]; rfl⟩
  have short : s.length ≤ (bytes s).length := length_le_bytes
  rw [empty] at short
  exact Nat.le_zero.1 short

theorem findIdx?_eq {A : Type} (f : A → Bool) (l : List A) :
    l.findIdx? f =
      if l.dropWhile (fun a => !f a) = [] then none else some (l.takeWhile fun a => !f a).length := by
  induction l with
  | nil => rfl
  | cons a l ih =>
      rw [List.findIdx?_cons]
      cases hit : f a with
      | true => simp [hit]
      | false =>
          simp only [hit, Bool.false_eq_true, if_false, ih, List.takeWhile_cons, List.dropWhile_cons,
            Bool.not_false, if_true, List.length_cons]
          split_ifs <;> simp

theorem findIdx?_bytes (ascii : Ascii c) : (bytes s).findIdx? (· = byte c) =
    if s.dropWhile (· ≠ c) = [] then none else some (bytes (s.takeWhile (· ≠ c))).length := by
  obtain ⟨before, behind⟩ := takeWhile_bytes (s := s) ascii
  simp only [ne_eq, decide_not] at before behind ⊢
  rw [findIdx?_eq, before, behind]
  simp only [bytes_eq_nil_iff]

end search

end Shared.Utf8
