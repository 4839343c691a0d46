import Mathlib.Algebra.Group.Nat.Defs
import Mathlib.Data.List.Basic
import Mathlib.Tactic.Common

set_option autoImplicit false

/-!
# Text in UTF-16

Decimal numerals and the string literals of JSON.
-/

namespace Shared

-- The code units, which need not pair up as UTF-16 has them.
abbrev Text := List UInt16

def unit (c : Char) : UInt16 := c.val.toUInt16

def ascii (s : String) : Text := s.toList.map unit

section decimal

def decimal (n : Nat) : Text := (Nat.toDigits 10 n).map unit

def digit (c : UInt16) : Option Nat :=
  if unit '0' ≤ c ∧ c ≤ unit '9' then some (c.toNat - (unit '0').toNat) else none

-- Leading zeros are read over.
def ofDecimal : Text → Option Nat
  | [] => none
  | c :: t => (c :: t).foldlM (fun n c => (digit c).map fun d => 10 * n + d) 0

theorem digit_unit {c : Char} (isDigit : c.isDigit) : digit (unit c) = some (c.toNat - '0'.toNat) := by
  have digits : ∀ n < 58, 48 ≤ n → digit (unit (Char.ofNat n)) = some (n - 48) := by decide
  have range := Char.isDigit_iff_toNat.1 isDigit
  have here := digits c.toNat (Nat.lt_succ_of_le range.2) range.1
  rwa [Char.ofNat_toNat] at here

theorem ofDecimal_decimal (n : Nat) : ofDecimal (decimal n) = some n := by
  have folds (cs : List Char) (allDigits : ∀ c ∈ cs, c.isDigit) (m : Nat) :
      (cs.map unit).foldlM (fun n c => (digit c).map fun d => 10 * n + d) m =
        some (Nat.ofDigitChars 10 cs m) := by
    induction cs generalizing m with
    | nil => rfl
    | cons c cs ih =>
        rw [List.map_cons, List.foldlM_cons, digit_unit (allDigits c List.mem_cons_self),
          Nat.ofDigitChars_cons]
        exact ih (fun c here => allDigits c (List.mem_cons_of_mem _ here)) _
  have whole := folds (Nat.toDigits 10 n)
    (fun c here => Nat.isDigit_of_mem_toDigits (by decide) (by decide) here) 0
  rw [Nat.ofDigitChars_ten_toDigits] at whole
  cases digits : Nat.toDigits 10 n with
  | nil => exact absurd digits Nat.toDigits_ne_nil
  | cons c cs =>
      rw [digits] at whole
      rw [decimal, digits]
      exact whole

end decimal

section quote

-- The escapes of two characters.
def escapes : List (UInt16 × UInt16) :=
  [(unit '"', unit '"'), (unit '\\', unit '\\'), (8, unit 'b'), (12, unit 'f'), (10, unit 'n'), (13, unit 'r'),
    (9, unit 't')]

def lead (c : UInt16) : Bool := 0xD800 ≤ c && c ≤ 0xDBFF

def trail (c : UInt16) : Bool := 0xDC00 ≤ c && c ≤ 0xDFFF

def hexDigit (d : Nat) : UInt16 := unit (Nat.digitChar d)

def unicodeEscape (c : UInt16) : Text :=
  unit '\\' :: unit 'u' ::
    [hexDigit (c.toNat / 4096), hexDigit (c.toNat / 256 % 16), hexDigit (c.toNat / 16 % 16),
      hexDigit (c.toNat % 16)]

def quoteUnit (c : UInt16) : Text :=
  match escapes.lookup c with
  | some e => [unit '\\', e]
  | none => if c < 32 || lead c || trail c then unicodeEscape c else [c]

-- A surrogate is escaped unless the pair is whole.
def quoteUnits : Text → Text
  | [] => []
  | [c] => quoteUnit c
  | c :: d :: s => if lead c && trail d then c :: d :: quoteUnits s else quoteUnit c ++ quoteUnits (d :: s)

def quote (s : Text) : Text := unit '"' :: quoteUnits s ++ [unit '"']

end quote

section unquote

def hexValue (c : UInt16) : Option Nat :=
  if unit '0' ≤ c ∧ c ≤ unit '9' then some (c.toNat - 48)
  else if unit 'a' ≤ c ∧ c ≤ unit 'f' then some (c.toNat - 87)
  else if unit 'A' ≤ c ∧ c ≤ unit 'F' then some (c.toNat - 55)
  else none

def unescapes : List (UInt16 × UInt16) := (unit '/', unit '/') :: escapes.map Prod.swap

-- What follows the opening quotation mark, up to the closing one.
def unquote : Text → Option (Text × Text)
  | [] => none
  | c :: t =>
    if c = unit '"' then some ([], t)
    else if c = unit '\\' then
      match t with
      | [] => none
      | e :: t =>
        if e = unit 'u' then
          match t with
          | h₃ :: h₂ :: h₁ :: h₀ :: t => do
              let code ← [h₃, h₂, h₁, h₀].foldlM (fun n h => (hexValue h).map fun d => n * 16 + d) 0
              (unquote t).map fun (s, t) => (UInt16.ofNat code :: s, t)
          | _ => none
        else do
          let c ← unescapes.lookup e
          (unquote t).map fun (s, t) => (c :: s, t)
    else if c < 32 then none
    else (unquote t).map fun (s, t) => (c :: s, t)

-- A string that never closes is refused.
example : unquote [] = none := by rw [unquote.eq_def]

theorem unquote_raw {c : UInt16} (notQuote : c ≠ unit '"') (plain : c ≠ unit '\\') (printable : ¬ c < 32) (t : Text) :
    unquote (c :: t) = (unquote t).map fun (s, t) => (c :: s, t) := by
  rw [unquote.eq_def]
  exact (if_neg notQuote).trans ((if_neg plain).trans (if_neg printable))

theorem unquote_close (t : Text) : unquote (unit '"' :: t) = some ([], t) := by
  rw [unquote.eq_def]
  exact if_pos rfl

theorem hexValue_hexDigit {d : Nat} (digit : d < 16) : hexValue (hexDigit d) = some d := by
  have all : ∀ d < 16, hexValue (hexDigit d) = some d := by decide
  exact all d digit

theorem unquote_unicodeEscape (c : UInt16) (t : Text) :
    unquote (unicodeEscape c ++ t) = (unquote t).map fun (s, t) => (c :: s, t) := by
  have below := c.toNat_lt
  have code : (((0 * 16 + c.toNat / 4096) * 16 + c.toNat / 256 % 16) * 16 + c.toNat / 16 % 16) * 16 +
      c.toNat % 16 = c.toNat := by omega
  have h₃ := hexValue_hexDigit (d := c.toNat / 4096) (by omega)
  have h₂ := hexValue_hexDigit (d := c.toNat / 256 % 16) (by omega)
  have h₁ := hexValue_hexDigit (d := c.toNat / 16 % 16) (by omega)
  have h₀ := hexValue_hexDigit (d := c.toNat % 16) (by omega)
  change unquote (unit '\\' :: unit 'u' :: hexDigit _ :: hexDigit _ :: hexDigit _ :: hexDigit _ :: t) = _
  rw [unquote.eq_def]
  refine (if_neg (by decide)).trans ((if_pos rfl).trans ((if_pos rfl).trans ?_))
  simp only [List.foldlM_cons, List.foldlM_nil, h₃, h₂, h₁, h₀, Option.map_some, Option.bind_eq_bind,
    Option.bind_some,
    Option.pure_def, code, UInt16.ofNat_toNat]

theorem unquote_escape {c e : UInt16} (short : escapes.lookup c = some e) (t : Text) :
    unquote (unit '\\' :: e :: t) = (unquote t).map fun (s, t) => (c :: s, t) := by
  have inverse : escapes.all (fun p => p.2 ≠ unit 'u' ∧ unescapes.lookup p.2 = some p.1) := by decide
  obtain ⟨before, after, listed, -⟩ := List.lookup_eq_some_iff.1 short
  have here : (c, e) ∈ escapes := listed ▸ List.mem_append_right before List.mem_cons_self
  obtain ⟨notHex, back⟩ := of_decide_eq_true (List.all_eq_true.1 inverse (c, e) here)
  rw [unquote.eq_def]
  refine (if_neg (by decide)).trans ((if_pos rfl).trans ((if_neg notHex).trans ?_))
  rw [back, Option.bind_eq_bind, Option.bind_some]

theorem unquote_quoteUnit (c : UInt16) (t : Text) :
    unquote (quoteUnit c ++ t) = (unquote t).map fun (s, t) => (c :: s, t) := by
  rw [quoteUnit]
  cases short : escapes.lookup c with
  | some e => exact unquote_escape short t
  | none =>
      have notQuote : c ≠ unit '"' := by rintro rfl; cases short
      have plain : c ≠ unit '\\' := by rintro rfl; cases short
      dsimp only
      split
      · exact unquote_unicodeEscape c t
      · rename_i printable
        refine unquote_raw notQuote plain ?_ t
        intro control
        simp [control] at printable

theorem surrogate_raw {c : UInt16} (surrogate : lead c ∨ trail c) :
    c ≠ unit '"' ∧ c ≠ unit '\\' ∧ ¬ c < 32 := by
  have high : 0xD800 ≤ c := by
    rcases surrogate with isLead | isTrail
    · exact of_decide_eq_true (Bool.and_eq_true_iff.1 isLead).1
    · exact UInt16.le_trans (by decide) (of_decide_eq_true (Bool.and_eq_true_iff.1 isTrail).1)
  refine ⟨?_, ?_, UInt16.not_lt.2 (UInt16.le_trans (by decide) high)⟩
  · rintro rfl
    exact absurd high (by decide)
  · rintro rfl
    exact absurd high (by decide)

theorem unquote_quoteUnits (s t : Text) : unquote (quoteUnits s ++ unit '"' :: t) = some (s, t) := by
  induction s using quoteUnits.induct with
  | case1 => rw [quoteUnits, List.nil_append, unquote_close]
  | case2 c => rw [quoteUnits, unquote_quoteUnit, unquote_close, Option.map_some]
  | case3 c d s pair ih =>
      obtain ⟨open₁, plain₁, printable₁⟩ := surrogate_raw (.inl (Bool.and_eq_true_iff.1 pair).1)
      obtain ⟨open₂, plain₂, printable₂⟩ := surrogate_raw (.inr (Bool.and_eq_true_iff.1 pair).2)
      rw [quoteUnits, if_pos pair, List.cons_append, List.cons_append, unquote_raw open₁ plain₁ printable₁,
        unquote_raw open₂ plain₂ printable₂, ih, Option.map_some, Option.map_some]
  | case4 c d s broken ih =>
      rw [quoteUnits, if_neg broken, List.append_assoc, unquote_quoteUnit, ih, Option.map_some]

end unquote

end Shared
