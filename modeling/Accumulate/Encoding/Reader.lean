import Accumulate.Encoding.Writer

/-!
# The binary reader

`Reader` of `internal/encoding/reader.go`.  The caller asks for one field after the other, in
increasing order.  The reader looks one field number ahead: a number that is not the one asked
for is kept until the caller asks for it.  The first error is kept and everything fails after it.
-/

namespace Accumulate.Encoding

open Library

def errFieldsOutOfOrder : String := "fields are out of order"

/-- The texts of the errors of reading a number. -/
def varintErrorText : VarintError → String
  | .eof => "EOF"
  | .unexpectedEOF => "unexpected EOF"
  | .overflow => "binary: varint overflows a 64-bit integer"

/-- `Reader`, with the input it has not read yet. -/
structure Reader where
  input : List UInt8
  current : Nat
  seen : List Bool
  err : Option String
  last : Nat
deriving DecidableEq, Repr

namespace Reader

def new (input : List UInt8) : Reader := ⟨input, 0, [], none, 0⟩

def didRead (r : Reader) (field : Nat) (err : Option String) (format : String) : Reader :=
  if r.err.isSome then r
  else
    { r with
      last := field
      err :=
        match err with
        | none => none
        | some e => some s!"{format}: {e}" }

def readUintValue (r : Reader) (field : Nat) : Option Nat × Reader :=
  if r.err.isSome then (none, r)
  else
    match readUvarint r.input with
    | (.ok v, input) =>
      (some v, { r with input := input }.didRead field none "failed to read field")
    | (.error e, input) =>
      (none,
        { r with input := input }.didRead field (some (varintErrorText e)) "failed to read field")

def readIntValue (r : Reader) (field : Nat) : Option Int × Reader :=
  ((r.readUintValue field).1.map unzigzag, (r.readUintValue field).2)

/-- `readRaw`.  The input knows its length, so that a length that is too large is reported before
reading; the source goes on all the same. -/
def readRaw (r : Reader) (field n : Nat) : Option (List UInt8) × Reader :=
  if r.err.isSome then (none, r)
  else if n = 0 then (some [], r)
  else
    let r := if r.input.length < n then r.didRead field (some "EOF") "failed to read field" else r
    if n ≥ maxValueSize then (none, r.didRead field (some "too big") "failed to read field")
    else if n ≤ r.input.length then
      (some (r.input.take n),
        { r with input := r.input.drop n }.didRead field none "failed to read field")
    else
      let e := if r.input = [] then "EOF" else "unexpected EOF"
      (none, { r with input := [] }.didRead field (some e) "failed to read field")

def reset (r : Reader) (fieldNames : Option (List String)) : (List Bool × Option String) × Reader :=
  ((r.seen, fieldError fieldNames r.last r.err), { r with seen := [], last := 0, err := none })

def readFieldNumber (r : Reader) : Bool × Reader :=
  match readUvarint r.input with
  | (.error .eof, input) => (false, { r with input := input })
  | (.error e, input) =>
    (false, { r with
      input := input
      last := 0
      err := some s!"failed to read field number: {varintErrorText e}" })
  | (.ok v, input) =>
    if v < 1 ∨ v > 32 then
      (false, { r with
        input := input
        last := 0
        err := some s!"failed to read field number: {errInvalidFieldNumber}" })
    else
      (true, { r with
        input := input
        current := v
        seen := r.seen ++ List.replicate (v - 1 - r.seen.length) false ++ [true] })

def nextField (r : Reader) : Bool × Reader :=
  if r.seen = [] then
    match r.input with
    | [] => (false, r)
    | b :: rest =>
      if b = emptyObject then (false, { r with input := rest, current := emptyObject.toNat })
      else r.readFieldNumber
  else r.readFieldNumber

/-- The comparison of `readField` once there is a current field number. -/
def matchField (r : Reader) (field : Nat) : Bool × Reader :=
  if r.current < field then (false, { r with last := 0, err := some errFieldsOutOfOrder })
  else if r.current > field then (false, r)
  else (true, { r with current := 0 })

def readField (r : Reader) (field : Nat) : Bool × Reader :=
  if r.err.isSome then (false, r)
  else if field < 1 ∨ field > 32 then (false, { r with err := some errInvalidFieldNumber })
  else if r.current = 0 then
    match r.nextField with
    | (false, r) => (false, r)
    | (true, r) => r.matchField field
  else r.matchField field

/-- Read a field number and then, if it is the one asked for, a value. -/
def whenField {α : Type} (r : Reader) (n : Nat) (read : Reader → Option α × Reader) :
    Option α × Reader :=
  match r.readField n with
  | (false, r) => (none, r)
  | (true, r) => read r

/-- A length and as many bytes. -/
def readCounted (r : Reader) (n : Nat) : Option (List UInt8) × Reader :=
  let (l, r) := r.readUintValue n
  match l with
  | none => (none, r)
  | some l => r.readRaw n l

def readHash (r : Reader) (n : Nat) : Option (List UInt8) × Reader :=
  r.whenField n fun r => r.readRaw n 32

def readInt (r : Reader) (n : Nat) : Option Int × Reader :=
  r.whenField n fun r => r.readIntValue n

def readUint (r : Reader) (n : Nat) : Option Nat × Reader :=
  r.whenField n fun r => r.readUintValue n

def readBool (r : Reader) (n : Nat) : Option Bool × Reader :=
  r.whenField n fun r =>
    match r.readUintValue n with
    | (none, r) => (none, r)
    | (some 0, r) => (some false, r)
    | (some 1, r) => (some true, r)
    | (some v, r) =>
      (none, r.didRead n (some s!"{v} is not a valid boolean") "failed to unmarshal field")

def readBytes (r : Reader) (n : Nat) : Option (List UInt8) × Reader :=
  r.whenField n fun r => r.readCounted n

/-- `ReadString`, as the bytes of the string.  A length that cannot be read leaves an error, so
that nothing more is read. -/
def readString (r : Reader) (n : Nat) : Option (List UInt8) × Reader :=
  r.whenField n fun r => r.readCounted n

def readBigInt (r : Reader) (n : Nat) : Option Int × Reader :=
  r.whenField n fun r =>
    let (b, r) := r.readCounted n
    (b.map fun b => (ofBigEndian b : Int), r)

/-- `ReadValue`, with the function that unmarshals the value. -/
def readValue {α : Type} (r : Reader) (n : Nat) (unmarshal : List UInt8 → Except String α) :
    Option α × Reader :=
  match r.readBytes n with
  | (none, r) => (none, r)
  | (some b, r) =>
    match unmarshal b with
    | .ok v => (some v, r.didRead n none "failed to unmarshal value")
    | .error e => (none, r.didRead n (some e) "failed to unmarshal value")

/-- `ReadEnum`, with the test whether a number is a value of the enumeration. -/
def readEnum (r : Reader) (n : Nat) (setEnumValue : Nat → Bool) : Option Nat × Reader :=
  match r.readUint n with
  | (none, r) => (none, r)
  | (some u, r) =>
    if setEnumValue u then (some u, r)
    else (none, r.didRead n (some s!"{u} is not a valid value") "failed to unmarshal value")

end Reader
end Accumulate.Encoding
