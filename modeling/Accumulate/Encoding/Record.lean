import Accumulate.Encoding.Reader

/-!
# Records

What the marshalling methods of the generated types do with a `Writer` and a `Reader`: the fields
that are set are written in increasing order, and all fields are read in the same order.  A
repeatable field is written once for each of its values, and read until there is no further value.
A nested value is marshalled and unmarshalled by its own writer and reader.
-/

namespace Accumulate.Encoding

open Library

mutual

/-- The kinds of fields.  An enumeration is given by the test whether a number is one of its
values, and a nested value by its fields. -/
inductive Kind where
  | hash
  | int
  | uint
  | bool
  | bytes
  | string
  | bigInt
  | enum (setEnumValue : Nat → Bool)
  | value (fields : List Field)

inductive Field where
  | mk (number : Nat) (repeatable : Bool) (kind : Kind)

end

def Field.number : Field → Nat
  | .mk number _ _ => number

/-- A value of a field.  A record holds, for each of its fields, the values it is set to. -/
inductive Value where
  | hash (v : List UInt8)
  | int (v : Int64)
  | uint (v : UInt64)
  | bool (v : Bool)
  | bytes (v : List UInt8)
  | string (v : List UInt8)
  | bigInt (v : Int)
  | enum (v : UInt64)
  | record (fields : List (List Value))

/-! ## Writing -/

def marshalled (w : Writer) : List UInt8 × Option String :=
  match w.reset none with
  | ((_, _, none), w) => (w.buffer, none)
  | ((_, _, some e), _) => ([], some e)

mutual

def Kind.write : Kind → Nat → Value → Writer → Writer
  | .hash, n, .hash v, w => w.writeHash n v
  | .int, n, .int v, w => w.writeInt n v
  | .uint, n, .uint v, w => w.writeUint n v
  | .bool, n, .bool v, w => w.writeBool n v
  | .bytes, n, .bytes v, w => w.writeBytes n v
  | .string, n, .string v, w => w.writeString n v
  | .bigInt, n, .bigInt v, w => w.writeBigInt n v
  | .enum _, n, .enum v, w => w.writeEnum n v
  | .value fields, n, .record r, w => w.writeValue n (marshalled (writeFields fields r .new))
  | _, _, _, w => w

def Field.write : Field → List Value → Writer → Writer
  | .mk number _ kind, values, w => values.foldl (fun w v => kind.write number v w) w

def writeFields : List Field → List (List Value) → Writer → Writer
  | f :: fields, values :: rest, w => writeFields fields rest (f.write values w)
  | _, _, w => w

end

/-! ## Reading -/

/-- Read values of a repeatable field until there is none.  Every round but the last reads a
field number. -/
def readMany (read : Reader → Option Value × Reader) : Nat → Reader → List Value × Reader
  | 0, r => ([], r)
  | fuel + 1, r =>
    match read r with
    | (none, r) => ([], r)
    | (some v, r) =>
      let (values, r) := readMany read fuel r
      (v :: values, r)

def unmarshalled (result : List (List Value) × Reader) : Except String Value :=
  match (result.2.reset none).1.2 with
  | none => .ok (.record result.1)
  | some e => .error e

mutual

def Kind.read : Kind → Nat → Reader → Option Value × Reader
  | .hash, n, r => ((r.readHash n).1.map .hash, (r.readHash n).2)
  | .int, n, r => ((r.readInt n).1.map fun v => .int (Int64.ofInt v), (r.readInt n).2)
  | .uint, n, r => ((r.readUint n).1.map fun v => .uint (UInt64.ofNat v), (r.readUint n).2)
  | .bool, n, r => ((r.readBool n).1.map .bool, (r.readBool n).2)
  | .bytes, n, r => ((r.readBytes n).1.map .bytes, (r.readBytes n).2)
  | .string, n, r => ((r.readString n).1.map .string, (r.readString n).2)
  | .bigInt, n, r => ((r.readBigInt n).1.map .bigInt, (r.readBigInt n).2)
  | .enum setEnumValue, n, r =>
    ((r.readEnum n setEnumValue).1.map fun v => .enum (UInt64.ofNat v),
      (r.readEnum n setEnumValue).2)
  | .value fields, n, r => r.readValue n fun b => unmarshalled (readFields fields (.new b))

def Field.read : Field → Reader → List Value × Reader
  | .mk number repeatable kind, r =>
    if repeatable then readMany (kind.read number) (r.input.length + 2) r
    else ((kind.read number r).1.toList, (kind.read number r).2)

def readFields : List Field → Reader → List (List Value) × Reader
  | [], r => ([], r)
  | f :: fields, r =>
    let (values, r) := f.read r
    let (rest, r) := readFields fields r
    (values :: rest, r)

end

/-! ## Schemas and records -/

mutual

/-- The fields of nested values are well-formed too. -/
def Kind.WellFormed : Kind → Prop
  | .value fields => WellFormedFields 0 fields
  | _ => True

def Field.WellFormed : Field → Prop
  | .mk _ _ kind => kind.WellFormed

/-- The fields have increasing numbers above the given one, up to 32. -/
def WellFormedFields : Nat → List Field → Prop
  | _, [] => True
  | n, f :: fields =>
    n < f.number ∧ f.number ≤ 32 ∧ f.WellFormed ∧ WellFormedFields f.number fields

end

def counted (b : List UInt8) : List UInt8 := putUvarint b.length ++ b

/-- Field numbers with the encoding of a value each, as they are written one after the other. -/
def flat (tokens : List (Nat × List UInt8)) : List UInt8 :=
  tokens.flatMap fun t => putUvarint t.1 ++ t.2

/-- A list of fields, which is not empty even if there are none. -/
def object (tokens : List (Nat × List UInt8)) : List UInt8 :=
  if tokens = [] then [emptyObject] else flat tokens

mutual

def Kind.payload : Kind → Value → List UInt8
  | .hash, .hash v => v
  | .int, .int v => putUvarint (zigzag v.toInt)
  | .uint, .uint v => putUvarint v.toNat
  | .bool, .bool v => putUvarint (if v then 1 else 0)
  | .bytes, .bytes v => counted v
  | .string, .string v => counted v
  | .bigInt, .bigInt v => counted (toBigEndian v.toNat)
  | .enum _, .enum v => putUvarint v.toNat
  | .value fields, .record r => counted (object (tokensOf fields r))
  | _, _ => []

def Field.tokens : Field → List Value → List (Nat × List UInt8)
  | .mk number _ kind, values => values.map fun v => (number, kind.payload v)

/-- The fields of a record that are set. -/
def tokensOf : List Field → List (List Value) → List (Nat × List UInt8)
  | f :: fields, values :: rest => f.tokens values ++ tokensOf fields rest
  | _, _ => []

end

mutual

/-- A value of the kind that can be written: hashes have 32 bytes, byte strings and the encodings
of nested values are shorter than the limit, and big integers are not negative. -/
def Kind.Admits : Kind → Value → Prop
  | .hash, .hash v => v.length = 32
  | .int, .int _ => True
  | .uint, .uint _ => True
  | .bool, .bool _ => True
  | .bytes, .bytes v => v.length < maxValueSize
  | .string, .string v => v.length < maxValueSize
  | .bigInt, .bigInt v => 0 ≤ v ∧ (toBigEndian v.toNat).length < maxValueSize
  | .enum setEnumValue, .enum v => setEnumValue v.toNat = true
  | .value fields, .record r =>
    AdmitsFields fields r ∧ (object (tokensOf fields r)).length < maxValueSize
  | _, _ => False

/-- A field that is not repeatable has at most one value. -/
def Field.Admits : Field → List Value → Prop
  | .mk _ repeatable kind, values =>
    (repeatable = true ∨ values.length ≤ 1) ∧ ∀ v ∈ values, kind.Admits v

/-- The record has values for each of the fields. -/
def AdmitsFields : List Field → List (List Value) → Prop
  | [], [] => True
  | f :: fields, values :: rest => f.Admits values ∧ AdmitsFields fields rest
  | _, _ => False

end

mutual

/-- A value of the kind, whatever its size: hashes have 32 bytes and big integers are not
negative. -/
def Kind.Shaped : Kind → Value → Prop
  | .hash, .hash v => v.length = 32
  | .int, .int _ => True
  | .uint, .uint _ => True
  | .bool, .bool _ => True
  | .bytes, .bytes _ => True
  | .string, .string _ => True
  | .bigInt, .bigInt v => 0 ≤ v
  | .enum setEnumValue, .enum v => setEnumValue v.toNat = true
  | .value fields, .record r => ShapedFields fields r
  | _, _ => False

def Field.Shaped : Field → List Value → Prop
  | .mk _ repeatable kind, values =>
    (repeatable = true ∨ values.length ≤ 1) ∧ ∀ v ∈ values, kind.Shaped v

def ShapedFields : List Field → List (List Value) → Prop
  | [], [] => True
  | f :: fields, values :: rest => f.Shaped values ∧ ShapedFields fields rest
  | _, _ => False

end

mutual

/-- Byte strings and the encodings of nested values are shorter than the limit. -/
def Kind.Below (limit : Nat) : Kind → Value → Prop
  | .bytes, .bytes v => v.length < limit
  | .string, .string v => v.length < limit
  | .bigInt, .bigInt v => (toBigEndian v.toNat).length < limit
  | .value fields, .record r =>
    BelowFields limit fields r ∧ (object (tokensOf fields r)).length < limit
  | _, _ => True

def Field.Below (limit : Nat) : Field → List Value → Prop
  | .mk _ _ kind, values => ∀ v ∈ values, kind.Below limit v

def BelowFields (limit : Nat) : List Field → List (List Value) → Prop
  | f :: fields, values :: rest => f.Below limit values ∧ BelowFields limit fields rest
  | _, _ => True

end

end Accumulate.Encoding
