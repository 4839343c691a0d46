import Mathlib.Algebra.Group.Int.Defs
import Mathlib.Data.List.Forall2
import Mootvote.Helpers.JsonReplacer

set_option autoImplicit false

/-!
# What the keyring's JSON keeps

`jsonReviver` undoes `jsonReplacer` at every depth.
-/

namespace Mootvote.Helpers.JsonReplacer

open Shared

section values

-- What the keyring stores: numbers that JSON can write, listed typed arrays and keys that are no tag.
inductive Plain : Value → Prop where
  | null : Plain .null
  | bool (b : Bool) : Plain (.bool b)
  | number {n : Double} (finite : n.Finite) (signed : n ≠ .negativeZero) : Plain (.number n)
  | string (s : Text) : Plain (.string s)
  | bigint (n : Int) : Plain (.bigint n)
  | view {v : View} (listed : v.ctor ∈ constructors.map Prod.snd) : Plain (.view v)
  | array {vs : List Value} (plain : ∀ v ∈ vs, Plain v) : Plain (.array vs)
  -- `ordered` holds of every object: the language lists own properties so.
  | object {ps : List (Text × Value)} (ordered : Json.OwnOrder (ps.map Prod.fst))
      (untagged : ∀ p ∈ ps, p.1 ≠ BIGINT_TAG ∧ p.1 ≠ TA_TAG) (plain : ∀ p ∈ ps, Plain p.2) :
      Plain (.object ps)

/-- Structural equality, where typed arrays are compared by constructor, length and bytes. -/
inductive Equal : Value → Value → Prop where
  | null : Equal .null .null
  | bool (b : Bool) : Equal (.bool b) (.bool b)
  | number (n : Double) : Equal (.number n) (.number n)
  | string (s : Text) : Equal (.string s) (.string s)
  | bigint (n : Int) : Equal (.bigint n) (.bigint n)
  | view {v w : View} (ctor : v.ctor = w.ctor) (length : v.length = w.length) (bytes : v.bytes = w.bytes) :
      Equal (.view v) (.view w)
  | array {vs ws : List Value} (equal : List.Forall₂ Equal vs ws) : Equal (.array vs) (.array ws)
  | object {ps qs : List (Text × Value)} (keys : ps.map Prod.fst = qs.map Prod.fst)
      (equal : List.Forall₂ Equal (ps.map Prod.snd) (qs.map Prod.snd)) : Equal (.object ps) (.object qs)

end values

section leaves

variable (rt : Runtime)

theorem toBigInt_bigintText (n : Int) : toBigInt rt (.string (bigintText n)) = some n := by
  have read : ofBigintText (bigintText n) = some n := by
    rw [bigintText]
    split
    · rename_i negative
      rw [ofBigintText, if_pos rfl, ofDecimal_decimal, Option.map_some]
      have value : -Int.ofNat n.natAbs = n := by rw [Int.ofNat_eq_natCast]; omega
      rw [value]
    · rename_i natural
      have digits := ofDecimal_decimal n.natAbs
      cases written : decimal n.natAbs with
      | nil =>
          rw [written] at digits
          cases digits
      | cons c t =>
          have noSign : c ≠ unit '-' := by
            rintro rfl
            rw [written, ofDecimal, List.foldlM_cons] at digits
            cases digits
          have value : Int.ofNat n.natAbs = n := by rw [Int.ofNat_eq_natCast]; omega
          rw [ofBigintText, if_neg noSign, ← written, digits, Option.map_some, value]
  rw [toBigInt, read, Option.some_or]

theorem toUInt8_toUInt16 (bs : List UInt8) : (bs.map UInt8.toUInt16).map UInt16.toUInt8 = bs := by
  rw [List.map_map]
  exact (List.map_congr_left fun b _ => UInt8.toUInt8_toUInt16 b).trans (List.map_id bs)

theorem btoa_bytes (bs : List UInt8) : btoa (bs.map UInt8.toUInt16) = some (Base64.encode bs) := by
  have binary : (bs.map UInt8.toUInt16).all (· < 256) := by
    rw [List.all_eq_true]
    intro c here
    obtain ⟨b, -, rfl⟩ := List.mem_map.1 here
    rw [decide_eq_true_iff, UInt16.lt_iff_toNat_lt, UInt8.toNat_toUInt16]
    exact b.toNat_lt
  rw [btoa, if_pos binary, toUInt8_toUInt16]

theorem u8ToB64_eq (u8 : View) : u8ToB64 rt u8 = some (Base64.encode u8.bytes) := by
  rw [u8ToB64]
  split
  · rfl
  · exact btoa_bytes u8.bytes

theorem b64ToU8_encode (bs : List UInt8) : b64ToU8 rt (Base64.encode bs) = some (View.copy bs) := by
  rw [b64ToU8, bufferFrom, atob, Base64.decode_encode, Option.getD_some, Option.map_some, Option.some_or,
    Option.map_some, toUInt8_toUInt16]
  split <;> rfl

theorem new_bytes (v : View) :
    ∃ u8, View.new .Uint8Array v.buffer v.byteOffset v.byteLength = some u8 ∧ u8.bytes = v.bytes := by
  have inside : v.byteOffset + v.byteLength * TypedArray.Uint8Array.BYTES_PER_ELEMENT ≤ v.buffer.length := by
    rw [TypedArray.BYTES_PER_ELEMENT, Nat.mul_one]
    exact v.inside
  refine ⟨_, (dif_pos (Nat.one_dvd _)).trans (dif_pos inside), ?_⟩
  rw [View.bytes, View.bytes, View.byteLength, TypedArray.BYTES_PER_ELEMENT, Nat.mul_one]

theorem new_copy (ctor : TypedArray) {bs : List UInt8} {length : Nat}
    (whole : bs.length = length * ctor.BYTES_PER_ELEMENT) :
    ∃ w, View.new ctor (View.copy bs).buffer (View.copy bs).byteOffset
        ((View.copy bs).byteLength / ctor.BYTES_PER_ELEMENT) = some w ∧
      w.ctor = ctor ∧ w.length = length ∧ w.bytes = bs := by
  have positive : 0 < ctor.BYTES_PER_ELEMENT := by cases ctor <;> decide
  have units : (View.copy bs).byteLength / ctor.BYTES_PER_ELEMENT = length := by
    have byteLength : (View.copy bs).byteLength = bs.length := Nat.mul_one _
    rw [byteLength, whole, Nat.mul_div_cancel _ positive]
  have inside : 0 + length * ctor.BYTES_PER_ELEMENT ≤ bs.length := by omega
  rw [units]
  refine ⟨_, (dif_pos (Nat.dvd_zero _)).trans (dif_pos inside), rfl, rfl, ?_⟩
  change (bs.drop 0).take (length * ctor.BYTES_PER_ELEMENT) = bs
  rw [List.drop_zero, ← whole, List.take_length]

end leaves

section carried

variable (rt : Runtime)

structure Carried (v : Value) (j : Json Double) (w : Value) : Prop where
  kept : Json.Kept rt.numbers j
  written : ∃ N, ∀ fuel ≥ N, ∀ key, serialize rt (jsonReplacer rt) fuel key v = some j
  revived : ∀ key, internalize (jsonReviver rt) key j = some w
  equal : Equal v w

variable {rt} {f : Value → Json Double} {g : Value → Value}

theorem written_properties {ps : List (Text × Value)}
    (written : ∀ p ∈ ps, ∃ N, ∀ fuel ≥ N, ∀ key, serialize rt (jsonReplacer rt) fuel key p.2 = some (f p.2)) :
    ∃ N, ∀ fuel ≥ N, ps.mapM (fun p => (serialize rt (jsonReplacer rt) fuel p.1 p.2).map fun j => (p.1, j)) =
      some (ps.map fun p => (p.1, f p.2)) := by
  induction ps with
  | nil => exact ⟨0, fun fuel _ => rfl⟩
  | cons p ps ih =>
      obtain ⟨first, here⟩ := written p List.mem_cons_self
      obtain ⟨rest, later⟩ := ih fun p here => written p (List.mem_cons_of_mem _ here)
      refine ⟨max first rest, fun fuel enough => ?_⟩
      rw [List.mapM_cons, here fuel (Nat.le_trans (Nat.le_max_left _ _) enough),
        later fuel (Nat.le_trans (Nat.le_max_right _ _) enough)]
      rfl

theorem revived_elements {vs : List Value}
    (revived : ∀ v ∈ vs, ∀ key, internalize (jsonReviver rt) key (f v) = some (g v)) (i : Nat) :
    internalizeElements (jsonReviver rt) i (vs.map f) = some (vs.map g) := by
  induction vs generalizing i with
  | nil => rfl
  | cons v vs ih =>
      have here := revived v List.mem_cons_self (decimal i)
      have later := ih (fun v here => revived v (List.mem_cons_of_mem _ here)) (i + 1)
      rw [List.map_cons, internalizeElements, here, later]
      rfl

theorem revived_members {ps : List (Text × Value)}
    (revived : ∀ p ∈ ps, ∀ key, internalize (jsonReviver rt) key (f p.2) = some (g p.2)) :
    internalizeMembers (jsonReviver rt) (ps.map fun p => (p.1, f p.2)) =
      some (ps.map fun p => (p.1, g p.2)) := by
  induction ps with
  | nil => rfl
  | cons p ps ih =>
      have here := revived p List.mem_cons_self p.1
      have later := ih fun p here => revived p (List.mem_cons_of_mem _ here)
      rw [List.map_cons, internalizeMembers, here, later]
      rfl

theorem lookup_absent {ps : List (Text × Value)} {key : Text} (absent : ∀ p ∈ ps, p.1 ≠ key) :
    ps.lookup key = none := by
  rw [List.lookup_eq_none_iff]
  intro p here
  exact bne_iff_ne.2 (absent p here).symm

theorem ordered_tags : Json.OwnOrder [BIGINT_TAG] ∧ Json.OwnOrder [TA_TAG, ascii "data"] := by decide

theorem carried_bigint (n : Int) :
    Carried rt (.bigint n) (.object [(BIGINT_TAG, .string (bigintText n))]) (.bigint n) := by
  refine ⟨.object ordered_tags.1 (by rintro m (_ | ⟨_, ⟨⟩⟩); exact .string _), ⟨2, ?_⟩, ?_, .bigint n⟩
  · -- The object that stands for the number is entered, and its string is not replaced.
    intro fuel enough key
    obtain ⟨fuel, rfl⟩ := Nat.exists_eq_add_of_le' enough
    rfl
  · intro key
    change (toBigInt rt (.string (bigintText n))).map Value.bigint = _
    rw [toBigInt_bigintText, Option.map_some]

theorem constructors_name {ctor : TypedArray} (listed : ctor ∈ constructors.map Prod.snd) :
    constructors.lookup ctor.name = some ctor := by
  cases ctor <;> first | rfl | exact absurd listed (by decide)

theorem carried_view {v : View} (listed : v.ctor ∈ constructors.map Prod.snd) :
    ∃ w, Carried rt (.view v)
      (.object [(TA_TAG, .string v.ctor.name), (ascii "data", .string (Base64.encode v.bytes))]) (.view w) := by
  obtain ⟨u8, opened, sameBytes⟩ := new_bytes v
  have whole : v.bytes.length = v.length * v.ctor.BYTES_PER_ELEMENT := by
    have inside := v.inside
    rw [View.bytes, List.length_take, List.length_drop, View.byteLength]
    omega
  obtain ⟨w, reopened, ctor, length, bytes⟩ := new_copy v.ctor whole
  have replaced (key : Text) : jsonReplacer rt key (.view v) = some (.object
      [(TA_TAG, .string v.ctor.name), (ascii "data", .string (Base64.encode v.bytes))]) := by
    rw [jsonReplacer, opened, Option.bind_eq_bind, Option.bind_some, u8ToB64_eq, sameBytes]
    rfl
  refine ⟨w, .object ordered_tags.2 ?_, ⟨2, ?_⟩, ?_, .view ctor.symm length.symm bytes.symm⟩
  · rintro m (_ | ⟨_, _ | ⟨_, ⟨⟩⟩⟩)
    · exact .string _
    · exact .string _
  · intro fuel enough key
    obtain ⟨fuel, rfl⟩ := Nat.exists_eq_add_of_le' enough
    rw [serialize, replaced]
    rfl
  · intro key
    have revived : jsonReviver rt key (.object
        [(TA_TAG, .string v.ctor.name), (ascii "data", .string (Base64.encode v.bytes))]) = some (.view w) := by
      have noBigint : List.lookup BIGINT_TAG [(TA_TAG, Value.string v.ctor.name),
          (ascii "data", .string (Base64.encode v.bytes))] = none := rfl
      have name : List.lookup TA_TAG [(TA_TAG, Value.string v.ctor.name),
          (ascii "data", .string (Base64.encode v.bytes))] = some (.string v.ctor.name) := rfl
      have data : List.lookup (ascii "data") [(TA_TAG, Value.string v.ctor.name),
          (ascii "data", .string (Base64.encode v.bytes))] = some (.string (Base64.encode v.bytes)) := rfl
      have isListed : constructors.lookup (propertyKey rt (.string v.ctor.name)) = some v.ctor :=
        constructors_name listed
      simp only [jsonReviver, noBigint, name, data, isListed, b64ToU8_encode, Option.bind_eq_bind,
        Option.bind_some, reopened]
    exact revived

theorem carried_array {vs : List Value} (carried : ∀ v ∈ vs, Carried rt v (f v) (g v)) :
    Carried rt (.array vs) (.array (vs.map f)) (.array (vs.map g)) := by
  refine ⟨.array ?_, ?_, ?_, .array ?_⟩
  · intro j here
    obtain ⟨v, there, rfl⟩ := List.mem_map.1 here
    exact (carried v there).kept
  · have each : ∀ p ∈ vs.mapIdx (fun i v => (decimal i, v)), ∃ N, ∀ fuel ≥ N, ∀ key,
        serialize rt (jsonReplacer rt) fuel key p.2 = some (f p.2) := by
      intro p here
      obtain ⟨i, below, rfl⟩ := List.mem_mapIdx.1 here
      exact (carried _ (List.getElem_mem below)).written
    obtain ⟨enough, written⟩ := written_properties each
    refine ⟨enough + 1, fun fuel large key => ?_⟩
    obtain ⟨fuel, rfl⟩ : ∃ fuel', fuel = fuel' + 1 := Nat.exists_eq_add_one_of_ne_zero (by omega)
    have same : jsonReplacer rt key (.array vs) = some (.array vs) := rfl
    rw [serialize, same, Option.bind_eq_bind, Option.bind_some]
    dsimp only
    have elements :
        ((vs.mapIdx fun i v => (decimal i, v)).map fun p => (p.1, f p.2)).map Prod.snd = vs.map f :=
      List.ext_getElem (by simp) (by simp)
    rw [written fuel (Nat.le_of_succ_le_succ large), Option.map_some, elements]
  · intro key
    rw [internalize, revived_elements (fun v here => (carried v here).revived), Option.bind_some]
    rfl
  · exact List.forall₂_map_right_iff.2 (List.forall₂_same.2 fun v here => (carried v here).equal)

theorem carried_object {ps : List (Text × Value)} (ordered : Json.OwnOrder (ps.map Prod.fst))
    (untagged : ∀ p ∈ ps, p.1 ≠ BIGINT_TAG ∧ p.1 ≠ TA_TAG)
    (carried : ∀ p ∈ ps, Carried rt p.2 (f p.2) (g p.2)) :
    Carried rt (.object ps) (.object (ps.map fun p => (p.1, f p.2)))
      (.object (ps.map fun p => (p.1, g p.2))) := by
  refine ⟨.object ?_ ?_, ?_, ?_, .object ?_ ?_⟩
  · rwa [List.map_map]
  · intro m here
    obtain ⟨p, there, rfl⟩ := List.mem_map.1 here
    exact (carried p there).kept
  · obtain ⟨enough, written⟩ := written_properties fun p here => (carried p here).written
    refine ⟨enough + 1, fun fuel large key => ?_⟩
    obtain ⟨fuel, rfl⟩ : ∃ fuel', fuel = fuel' + 1 := Nat.exists_eq_add_one_of_ne_zero (by omega)
    have same : jsonReplacer rt key (.object ps) = some (.object ps) := rfl
    rw [serialize, same, Option.bind_eq_bind, Option.bind_some]
    dsimp only
    rw [written fuel (Nat.le_of_succ_le_succ large)]
    rfl
  · intro key
    have noBigint : (ps.map fun p => (p.1, g p.2)).lookup BIGINT_TAG = none := lookup_absent fun p' here => by
      obtain ⟨p, there, rfl⟩ := List.mem_map.1 here
      exact (untagged p there).1
    have noView : (ps.map fun p => (p.1, g p.2)).lookup TA_TAG = none := lookup_absent fun p' here => by
      obtain ⟨p, there, rfl⟩ := List.mem_map.1 here
      exact (untagged p there).2
    rw [internalize, revived_members (fun p here => (carried p here).revived), Option.bind_some, jsonReviver,
      noBigint, noView]
  · rw [List.map_map]
    rfl
  · rw [List.map_map, List.forall₂_map_left_iff, List.forall₂_map_right_iff]
    exact List.forall₂_same.2 fun p here => (carried p here).equal

end carried

section roundTrip

variable (rt : Runtime) {v : Value}

theorem Plain.carried (plain : Plain v) : ∃ j w, Carried rt v j w := by
  have written {v : Value} {j : Json Double}
      (once : ∀ fuel key, serialize rt (jsonReplacer rt) (fuel + 1) key v = some j) :
      ∃ N, ∀ fuel ≥ N, ∀ key, serialize rt (jsonReplacer rt) fuel key v = some j := by
    refine ⟨1, fun fuel enough key => ?_⟩
    obtain ⟨fuel, rfl⟩ := Nat.exists_eq_add_of_le' enough
    exact once fuel key
  induction plain with
  | null => exact ⟨.null, .null, .null, written fun _ _ => rfl, fun _ => rfl, .null⟩
  | bool b => exact ⟨.bool b, .bool b, .bool b, written fun _ _ => rfl, fun _ => rfl, .bool b⟩
  | @number n finite signed =>
      have once (fuel : Nat) (key : Text) :
          serialize rt (jsonReplacer rt) (fuel + 1) key (.number n) = some (.number n) :=
        congrArg some (if_pos finite)
      exact ⟨.number n, .number n, .number (rt.keeps n finite signed), written once, fun _ => rfl, .number n⟩
  | string s => exact ⟨.string s, .string s, .string s, written fun _ _ => rfl, fun _ => rfl, .string s⟩
  | bigint n => exact ⟨_, _, carried_bigint n⟩
  | view listed =>
      obtain ⟨w, carried⟩ := @carried_view rt _ listed
      exact ⟨_, _, carried⟩
  | array plain ih =>
      choose! f g carried using ih
      exact ⟨_, _, carried_array carried⟩
  | @object ps ordered untagged plain ih =>
      have each : ∀ v ∈ ps.map Prod.snd, ∃ j w, Carried rt v j w := by
        intro v here
        obtain ⟨p, there, rfl⟩ := List.mem_map.1 here
        exact ih p there
      choose! f g carried using each
      exact ⟨_, _, carried_object ordered untagged fun p here => carried p.2 (List.mem_map_of_mem here)⟩

/-- A value that the keyring stores comes back equal. -/
theorem revives_equal (plain : Plain v) :
    ∃ N, ∀ fuel ≥ N, ∃ text w, stringify rt fuel v = some text ∧ parse rt text = some w ∧ Equal v w := by
  obtain ⟨j, w, carried⟩ := plain.carried rt
  obtain ⟨enough, written⟩ := carried.written
  refine ⟨enough, fun fuel large => ⟨Json.print rt.numbers j, w, ?_, ?_, carried.equal⟩⟩
  · rw [stringify, written fuel large, Option.map_some]
  · rw [parse, Json.parse_print carried.kept, Option.bind_some, carried.revived]

end roundTrip

namespace Account

def one : Double := ⟨0x3FF0000000000000⟩

-- Only the numeral of 1 is the real one.
def write (n : Double) : Text := if n = one then ascii "1" else decimal n.bits.toNat ++ ascii "e"

def read (t : Text) : Option Double :=
  if t = ascii "1" then some one
  else (ofDecimal t.dropLast).map fun n => ⟨UInt64.ofNat n⟩

theorem digit_numberUnit {n : Nat} {c : UInt16} (here : c ∈ decimal n) : Json.numberUnit c := by
  have digits : ∀ n < 58, 48 ≤ n → Json.numberUnit (unit (Char.ofNat n)) := by decide
  obtain ⟨d, there, rfl⟩ := List.mem_map.1 here
  have range := Char.isDigit_iff_toNat.1 (Nat.isDigit_of_mem_toDigits (by decide) (by decide) there)
  have isNumber := digits d.toNat (Nat.lt_succ_of_le range.2) range.1
  rwa [Char.ofNat_toNat] at isNumber

theorem write_units (n : Double) : ∀ c ∈ write n, Json.numberUnit c := by
  intro c here
  rw [write] at here
  split at here
  · rw [List.mem_singleton.1 here]
    decide
  · rcases List.mem_append.1 here with isDigit | exponent
    · exact digit_numberUnit isDigit
    · rw [List.mem_singleton.1 exponent]
      decide

theorem read_write (n : Double) : read (write n) = some n := by
  rw [write]
  split
  · rename_i isOne
    rw [isOne]
    rfl
  · have other : decimal n.bits.toNat ++ ascii "e" ≠ ascii "1" := by
      intro (same : decimal n.bits.toNat ++ ascii "e" = [] ++ ascii "1")
      exact absurd (List.append_inj_right' same rfl) (by decide)
    have dropped : (decimal n.bits.toNat ++ ascii "e").dropLast = decimal n.bits.toNat := List.dropLast_concat
    rw [read, if_neg other, dropped, ofDecimal_decimal, Option.map_some, UInt64.ofNat_toNat]

def numbers : Json.NumberText Double where
  kept n := n.Finite ∧ n ≠ .negativeZero
  write := write
  read := read
  nonempty n _ := by
    rw [write]
    split
    · exact List.cons_ne_nil _ _
    · exact List.append_ne_nil_of_right_ne_nil _ (List.cons_ne_nil _ _)
  units n _ := write_units n
  read_write n _ := read_write n

def browser : Runtime where
  buffer := false
  numbers := numbers
  keeps _ finite signed := ⟨finite, signed⟩
  bigIntOther _ := none
  bufferFromOther _ := []
  atobOther _ := none
  propertyKeyOther _ := []
  elements _ := []

-- The middle of a buffer as two elements of two bytes.
def prv : View where
  ctor := .Uint16Array
  buffer := [9, 9, 1, 2, 3, 4, 9]
  byteOffset := 2
  length := 2
  aligned := by decide
  inside := by decide

def accounts : Value :=
  .array [.object [(ascii "name", .string (ascii "a\n")), (ascii "prv", .view prv), (ascii "sk", .bigint (-(2 ^ 70))),
    (ascii "createdAt", .number one)]]

theorem accounts_plain : Plain accounts := by
  refine .array fun v here => ?_
  obtain rfl := List.mem_singleton.1 here
  refine .object (by decide +kernel) (by decide +kernel) ?_
  rintro p (_ | ⟨_, _ | ⟨_, _ | ⟨_, _ | ⟨_, ⟨⟩⟩⟩⟩⟩)
  · exact .string _
  · exact .view (by decide)
  · exact .bigint _
  · exact .number (by decide) (by decide)

theorem revives_accounts :
    ∃ N, ∀ fuel ≥ N, ∃ text w, stringify browser fuel accounts = some text ∧ parse browser text = some w ∧
      Equal accounts w := revives_equal browser accounts_plain

example : stringify browser 2 (.view prv) =
    some (ascii "\x7b\"__typedarray__\":\"Uint16Array\",\"data\":\"AQIDBA==\"\x7d") := by
  decide +kernel

end Account

end Mootvote.Helpers.JsonReplacer
