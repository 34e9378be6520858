import Accumulate.Library.Varint

/-!
# The binary writer

`Writer` of `internal/encoding/writer.go`: fields are written as a field number followed by a
value.  The first error is kept, and nothing is written after it until the writer is reset.  The
bytes go to a buffer, so that writing them does not fail.
-/

namespace Accumulate.Encoding

open Library

def emptyObject : UInt8 := 0x80

def maxValueSize : Nat := 2 ^ 20

def errInvalidFieldNumber : String := "field number is invalid"

/-- The error that `Reset` returns: it names the field the error is about. -/
def fieldError (fieldNames : Option (List String)) (last : Nat) (err : Option String) :
    Option String :=
  match fieldNames, err with
  | some names, some e =>
    if last = 0 then some e
    else
      match names[last]? with
      | some name => if name = "" then some s!"field {last}: {e}" else some s!"field {name}: {e}"
      | none => some s!"field {last}: {e}"
  | _, err => err

/-- `Writer`, with the buffer it writes to. -/
structure Writer where
  buffer : List UInt8
  err : Option String
  last : Nat
  written : Nat
deriving DecidableEq, Repr

namespace Writer

def new : Writer := ⟨[], none, 0, 0⟩

/-- Write to the buffer and call `didWrite`. -/
def didWrite (w : Writer) (field : Nat) (b : List UInt8) (err : Option String) (format : String) :
    Writer where
  buffer := w.buffer ++ b
  err :=
    match err with
    | none => w.err
    | some e => some s!"{format}: {e}"
  last := field
  written := w.written + b.length

/-- Write bytes, unless there has been an error. -/
def put (w : Writer) (field : Nat) (b : List UInt8) (format : String) : Writer :=
  if w.err.isSome then w else w.didWrite field b none format

def writeIntValue (w : Writer) (field : Nat) (v : Int64) : Writer :=
  w.put field (putUvarint (zigzag v.toInt)) "failed to write field"

def writeUintValue (w : Writer) (field : Nat) (v : UInt64) : Writer :=
  w.put field (putUvarint v.toNat) "failed to write field"

def writeRaw (w : Writer) (field : Nat) (v : List UInt8) : Writer :=
  if w.err.isSome then w
  else if v.length > maxValueSize then
    w.didWrite field [] (some "too large") "failed to write field"
  else w.didWrite field v none "failed to write field"

def didMarshal (w : Writer) (field : Nat) (err : Option String) : Writer :=
  if w.err.isSome then w
  else
    match err with
    | none => w
    | some e => w.didWrite field [] (some e) "failed to marshal field"

def writeField (w : Writer) (field : Nat) : Writer :=
  if w.err.isSome then w
  else if field < 1 ∨ field > 32 then { w with last := field, err := some errInvalidFieldNumber }
  else w.didWrite field (putUvarint field) none "failed to write field number"

def reset (w : Writer) (fieldNames : Option (List String)) : (Nat × Nat × Option String) × Writer :=
  let w :=
    if w.written = 0 then w.didWrite 0 [emptyObject] none "failed to write empty object marker"
    else w
  ((w.written, w.last, fieldError fieldNames w.last w.err),
    { w with written := 0, last := 0, err := none })

def writeHash (w : Writer) (n : Nat) (v : List UInt8) : Writer := (w.writeField n).writeRaw n v

def writeInt (w : Writer) (n : Nat) (v : Int64) : Writer := (w.writeField n).writeIntValue n v

def writeUint (w : Writer) (n : Nat) (v : UInt64) : Writer := (w.writeField n).writeUintValue n v

def writeBool (w : Writer) (n : Nat) (v : Bool) : Writer :=
  (w.writeField n).writeUintValue n (if v then 1 else 0)

def writeBytes (w : Writer) (n : Nat) (v : List UInt8) : Writer :=
  ((w.writeField n).writeUintValue n (UInt64.ofNat v.length)).writeRaw n v

/-- `WriteString`, of the bytes of the string. -/
def writeString (w : Writer) (n : Nat) (v : List UInt8) : Writer :=
  ((w.writeField n).writeUintValue n (UInt64.ofNat v.length)).writeRaw n v

def writeBigInt (w : Writer) (n : Nat) (v : Int) : Writer :=
  if v < 0 then
    { w with last := n, err := some "negative big int values are not supported" }
  else w.writeBytes n (toBigEndian v.toNat)

def writeValue (w : Writer) (n : Nat) (marshalled : List UInt8 × Option String) : Writer :=
  (w.didMarshal n marshalled.2).writeBytes n marshalled.1

def writeEnum (w : Writer) (n : Nat) (v : UInt64) : Writer := w.writeUint n v

end Writer
end Accumulate.Encoding
