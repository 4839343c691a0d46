import Mootvote.Shared.Base64
import Mootvote.Shared.Json

set_option autoImplicit false

/-!
# `jsonReplacer` and `jsonReviver`

`JSON.stringify` and `JSON.parse` with the two callbacks by which the keyring keeps big integers and typed arrays.
-/

namespace Mootvote.Helpers.JsonReplacer

open Shared

section values

structure Double where
  bits : UInt64
deriving DecidableEq

namespace Double

def Finite (n : Double) : Prop := n.bits >>> 52 &&& 0x7ff ≠ 0x7ff

instance (n : Double) : Decidable n.Finite := inferInstanceAs (Decidable (_ ≠ _))

def negativeZero : Double := ⟨0x8000000000000000⟩

end Double

inductive TypedArray where
  | Uint8Array
  | Uint8ClampedArray
  | Int8Array
  | Uint16Array
  | Int16Array
  | Uint32Array
  | Int32Array
  | Float16Array
  | Float32Array
  | Float64Array
  | BigInt64Array
  | BigUint64Array
deriving DecidableEq

namespace TypedArray

def name : TypedArray → Text
  | Uint8Array => ascii "Uint8Array"
  | Uint8ClampedArray => ascii "Uint8ClampedArray"
  | Int8Array => ascii "Int8Array"
  | Uint16Array => ascii "Uint16Array"
  | Int16Array => ascii "Int16Array"
  | Uint32Array => ascii "Uint32Array"
  | Int32Array => ascii "Int32Array"
  | Float16Array => ascii "Float16Array"
  | Float32Array => ascii "Float32Array"
  | Float64Array => ascii "Float64Array"
  | BigInt64Array => ascii "BigInt64Array"
  | BigUint64Array => ascii "BigUint64Array"

def BYTES_PER_ELEMENT : TypedArray → Nat
  | Uint8Array | Uint8ClampedArray | Int8Array => 1
  | Uint16Array | Int16Array | Float16Array => 2
  | Uint32Array | Int32Array | Float32Array => 4
  | Float64Array | BigInt64Array | BigUint64Array => 8

end TypedArray

/-- A typed array: its elements lie in a buffer that it may share. -/
structure View where
  ctor : TypedArray
  buffer : List UInt8
  byteOffset : Nat
  length : Nat
  aligned : ctor.BYTES_PER_ELEMENT ∣ byteOffset
  inside : byteOffset + length * ctor.BYTES_PER_ELEMENT ≤ buffer.length

namespace View

def byteLength (v : View) : Nat := v.length * v.ctor.BYTES_PER_ELEMENT

def bytes (v : View) : List UInt8 := (v.buffer.drop v.byteOffset).take v.byteLength

-- `new ctor(buffer, byteOffset, length)`, or its `RangeError`.
def new (ctor : TypedArray) (buffer : List UInt8) (byteOffset length : Nat) : Option View :=
  if aligned : ctor.BYTES_PER_ELEMENT ∣ byteOffset then
    if inside : byteOffset + length * ctor.BYTES_PER_ELEMENT ≤ buffer.length then
      some ⟨ctor, buffer, byteOffset, length, aligned, inside⟩
    else none
  else none

-- `new Uint8Array(elements)`.
def copy (bytes : List UInt8) : View where
  ctor := .Uint8Array
  buffer := bytes
  byteOffset := 0
  length := bytes.length
  aligned := Nat.dvd_zero _
  inside := by simp [TypedArray.BYTES_PER_ELEMENT]

end View

inductive Value where
  | null
  | bool (b : Bool)
  | number (n : Double)
  | string (s : Text)
  | bigint (n : Int)
  | view (v : View)
  | dataView (bytes : List UInt8)
  | arrayBuffer (bytes : List UInt8)
  | array (elements : List Value)
  | object (properties : List (Text × Value))
deriving Inhabited

/-- What the two callbacks take from where they run. -/
structure Runtime where
  buffer : Bool
  numbers : Json.NumberText Double
  keeps : ∀ n : Double, n.Finite → n ≠ .negativeZero → numbers.kept n
  /-- `BigInt` of what is not a decimal numeral. -/
  bigIntOther : Value → Option Int
  /-- `Buffer.from` and `atob` of a text that no encoder writes. -/
  bufferFromOther : Text → List UInt8
  atobOther : Text → Option Text
  /-- `ToPropertyKey` of what is not a string. -/
  propertyKeyOther : Value → Text
  elements : View → List Value

end values

section bigint

-- `toString`.
def bigintText (n : Int) : Text := if n < 0 then unit '-' :: decimal n.natAbs else decimal n.natAbs

def ofBigintText : Text → Option Int
  | [] => none
  | c :: t =>
      if c = unit '-' then (ofDecimal t).map fun n => -Int.ofNat n else (ofDecimal (c :: t)).map Int.ofNat

def toBigInt (rt : Runtime) (v : Value) : Option Int :=
  match v with
  | .string s => (ofBigintText s).or (rt.bigIntOther v)
  | _ => rt.bigIntOther v

end bigint

section base64

variable (rt : Runtime)

def btoa (s : Text) : Option Text :=
  if s.all (· < 256) then some (Base64.encode (s.map UInt16.toUInt8)) else none

def atob (b64 : Text) : Option Text :=
  ((Base64.decode b64).map fun bs => bs.map UInt8.toUInt16).or (rt.atobOther b64)

def bufferFrom (b64 : Text) : List UInt8 := (Base64.decode b64).getD (rt.bufferFromOther b64)

def u8ToB64 (u8 : View) : Option Text :=
  if rt.buffer then some (Base64.encode u8.bytes) else btoa (u8.bytes.map UInt8.toUInt16)

def b64ToU8 (b64 : Text) : Option View :=
  if rt.buffer then some (View.copy (bufferFrom rt b64))
  else (atob rt b64).map fun s => View.copy (s.map UInt16.toUInt8)

end base64

section callbacks

variable (rt : Runtime)

def TA_TAG : Text := ascii "__typedarray__"

def BIGINT_TAG : Text := ascii "__bigint__"

def constructors : List (Text × TypedArray) :=
  [(ascii "Uint8Array", .Uint8Array), (ascii "Int8Array", .Int8Array), (ascii "Uint16Array", .Uint16Array),
    (ascii "Int16Array", .Int16Array), (ascii "Uint32Array", .Uint32Array), (ascii "Int32Array", .Int32Array),
    (ascii "Float32Array", .Float32Array), (ascii "Float64Array", .Float64Array),
    (ascii "BigInt64Array", .BigInt64Array), (ascii "BigUint64Array", .BigUint64Array)]

/-- What a plain object inherits besides `constructor`: nothing of it is a constructor. -/
def inherited : List Text :=
  [ascii "__defineGetter__", ascii "__defineSetter__", ascii "hasOwnProperty", ascii "__lookupGetter__",
    ascii "__lookupSetter__", ascii "isPrototypeOf", ascii "propertyIsEnumerable", ascii "toString",
    ascii "valueOf", ascii "__proto__", ascii "toLocaleString"]

def propertyKey (v : Value) : Text :=
  match v with
  | .string s => s
  | _ => rt.propertyKeyOther v

def jsonReplacer (_k : Text) (v : Value) : Option Value :=
  match v with
  | .bigint n => some (.object [(BIGINT_TAG, .string (bigintText n))])
  | .view v => do
      let bytes ← View.new .Uint8Array v.buffer v.byteOffset v.byteLength
      let data ← u8ToB64 rt bytes
      some (.object [(TA_TAG, .string v.ctor.name), (ascii "data", .string data)])
  | _ => some v

def jsonReviver (_k : Text) (v : Value) : Option Value :=
  match v with
  | .object ps =>
      match ps.lookup BIGINT_TAG with
      | some n => (toBigInt rt n).map .bigint
      | none =>
          match ps.lookup TA_TAG, ps.lookup (ascii "data") with
          | some name, some (.string data) =>
              match constructors.lookup (propertyKey rt name) with
              | some ctor => do
                  let bytes ← b64ToU8 rt data
                  let view ← View.new ctor bytes.buffer bytes.byteOffset
                    (bytes.byteLength / ctor.BYTES_PER_ELEMENT)
                  some (.view view)
              | none =>
                  -- `new Object(buffer)` is the buffer.
                  if propertyKey rt name = ascii "constructor" then
                    (b64ToU8 rt data).map fun bytes => .arrayBuffer bytes.buffer
                  else if propertyKey rt name ∈ inherited then none
                  else some v
          | _, _ => some v
  | _ => some v

end callbacks

section traversals

variable (rt : Runtime)

/-- `SerializeJSONProperty`: the replacer comes first, and what it returns is entered. -/
def serialize (replacer : Text → Value → Option Value) : Nat → Text → Value → Option (Json Double)
  | 0, _, _ => none
  | fuel + 1, key, v => do
      let property (p : Text × Value) := (serialize replacer fuel p.1 p.2).map fun j => (p.1, j)
      match ← replacer key v with
      | .null => some .null
      | .bool b => some (.bool b)
      | .number n => some (if n.Finite then .number n else .null)
      | .string s => some (.string s)
      | .bigint _ => none
      | .view v => ((rt.elements v).mapIdx fun i v => (decimal i, v)).mapM property |>.map .object
      | .dataView _ | .arrayBuffer _ => some (.object [])
      | .array vs =>
          (vs.mapIdx fun i v => (decimal i, v)).mapM property |>.map fun ps => .array (ps.map Prod.snd)
      | .object ps => ps.mapM property |>.map .object

mutual

/-- `InternalizeJSONProperty`: the reviver sees a value after everything in it. -/
def internalize (reviver : Text → Value → Option Value) (key : Text) : Json Double → Option Value
  | .null => reviver key .null
  | .bool b => reviver key (.bool b)
  | .number n => reviver key (.number n)
  | .string s => reviver key (.string s)
  | .array js => (internalizeElements reviver 0 js).bind fun vs => reviver key (.array vs)
  | .object ms => (internalizeMembers reviver ms).bind fun ps => reviver key (.object ps)

def internalizeElements (reviver : Text → Value → Option Value) (i : Nat) :
    List (Json Double) → Option (List Value)
  | [] => some []
  | j :: js => do
      let v ← internalize reviver (decimal i) j
      (internalizeElements reviver (i + 1) js).map fun vs => v :: vs

def internalizeMembers (reviver : Text → Value → Option Value) :
    List (Text × Json Double) → Option (List (Text × Value))
  | [] => some []
  | (key, j) :: ms => do
      let v ← internalize reviver key j
      (internalizeMembers reviver ms).map fun ps => (key, v) :: ps

end

-- `JSON.stringify(v, jsonReplacer)`.
def stringify (fuel : Nat) (v : Value) : Option Text :=
  (serialize rt (jsonReplacer rt) fuel [] v).map (Json.print rt.numbers)

-- `JSON.parse(text, jsonReviver)`.
def parse (text : Text) : Option Value := (Json.parse rt.numbers text).bind (internalize (jsonReviver rt) [])

end traversals

end Mootvote.Helpers.JsonReplacer
