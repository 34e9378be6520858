import Accumulate.Encoding.Record

/-!
# The limits of the encoding

The writer and the reader keep their first error, and each of them refuses values that are too
large: the writer those above `MaxValueSize` and the reader those from `MaxValueSize` on.
-/

namespace Accumulate.Encoding

open Library

/-! ## Errors are kept -/

namespace Writer

variable {w : Writer} {n : Nat}

section

variable (h : w.err.isSome)

include h

theorem put_of_err (b : List UInt8) (format : String) : w.put n b format = w :=
  if_pos h

theorem writeRaw_of_err (b : List UInt8) : w.writeRaw n b = w :=
  if_pos h

theorem writeField_of_err : w.writeField n = w :=
  if_pos h

theorem writeBytes_of_err (b : List UInt8) : w.writeBytes n b = w := by
  rw [writeBytes, writeField_of_err h, writeUintValue, put_of_err h, writeRaw_of_err h]

theorem writeUint_of_err (v : UInt64) : w.writeUint n v = w := by
  rw [writeUint, writeField_of_err h, writeUintValue, put_of_err h]

theorem writeBigInt_err (v : Int) : (w.writeBigInt n v).err.isSome := by
  unfold writeBigInt
  split
  · rfl
  · rwa [writeBytes_of_err h]

end

end Writer

variable {w : Writer} {fields : List Field} {values : List Value}

theorem Kind.write_err (kind : Kind) (n : Nat) (v : Value) (h : w.err.isSome) :
    (kind.write n v w).err.isSome := by
  have hmarshal : ∀ e, w.didMarshal n e = w := fun e => if_pos h
  unfold Kind.write
  split <;>
    simp only [Writer.writeHash, Writer.writeInt, Writer.writeBool, Writer.writeString,
      Writer.writeEnum, Writer.writeValue, Writer.writeIntValue, Writer.writeUintValue, hmarshal,
      Writer.writeField_of_err h, Writer.writeRaw_of_err h, Writer.put_of_err h,
      Writer.writeBytes_of_err h, Writer.writeUint_of_err h, Writer.writeBigInt_err h, h]

theorem foldl_write_err (kind : Kind) (n : Nat) (h : w.err.isSome) :
    (values.foldl (fun w v => kind.write n v w) w).err.isSome := by
  induction values generalizing w with
  | nil => exact h
  | cons v values ih => exact ih (kind.write_err n v h)

theorem writeFields_err {record : List (List Value)} (h : w.err.isSome) :
    (writeFields fields record w).err.isSome := by
  induction fields generalizing record w with
  | nil => exact h
  | cons f fields ih =>
    cases record with
    | nil => exact h
    | cons values rest =>
      obtain ⟨number, repeatable, kind⟩ := f
      exact ih (foldl_write_err kind number h)

variable {r : Reader} {n : Nat}

theorem Kind.read_of_readField (kind : Kind) {r' : Reader} (h : r.readField n = (false, r')) :
    kind.read n r = (none, r') := by
  have hwhen {α : Type} (read : Reader → Option α × Reader) : r.whenField n read = (none, r') := by
    rw [Reader.whenField, h]
  cases kind <;>
    simp [Kind.read, Reader.readHash, Reader.readInt, Reader.readUint, Reader.readBool,
      Reader.readBytes, Reader.readString, Reader.readBigInt, Reader.readEnum, Reader.readValue,
      hwhen]

theorem Kind.read_of_err (kind : Kind) (h : r.err.isSome) : kind.read n r = (none, r) :=
  kind.read_of_readField (if_pos h)

theorem Field.read_of_err (f : Field) (h : r.err.isSome) : f.read r = ([], r) := by
  obtain ⟨number, repeatable, kind⟩ := f
  cases repeatable with
  | true =>
    show readMany (kind.read number) (r.input.length + 1 + 1) r = ([], r)
    rw [readMany, kind.read_of_err h]
  | false =>
    show ((kind.read number r).1.toList, (kind.read number r).2) = ([], r)
    rw [kind.read_of_err h]
    rfl

theorem readFields_err (h : r.err.isSome) : (readFields fields r).2.err.isSome := by
  induction fields with
  | nil => exact h
  | cons f fields ih =>
    rw [readFields, f.read_of_err h]
    exact ih

/-! ## Sizes -/

mutual

theorem Kind.admits_iff : ∀ (kind : Kind) (v : Value),
    kind.Admits v ↔ kind.Shaped v ∧ kind.Below maxValueSize v
  | .hash, v | .int, v | .uint, v | .bool, v | .bytes, v | .string, v | .bigInt, v
  | .enum _, v => by
      cases v <;> simp [Kind.Admits, Kind.Shaped, Kind.Below]
  | .value fields, v => by
      cases v with
      | record r =>
        show AdmitsFields fields r ∧ _ ↔ ShapedFields fields r ∧
          BelowFields maxValueSize fields r ∧ _
        rw [admitsFields_iff fields r, and_assoc]
      | _ => simp [Kind.Admits, Kind.Shaped]

theorem Field.admits_iff : ∀ (f : Field) (values : List Value),
    f.Admits values ↔ f.Shaped values ∧ f.Below maxValueSize values
  | .mk _ repeatable kind, values => by
      simp only [Field.Admits, Field.Shaped, Field.Below, Kind.admits_iff kind, forall_and,
        and_assoc]

theorem admitsFields_iff : ∀ (fields : List Field) (r : List (List Value)),
    AdmitsFields fields r ↔ ShapedFields fields r ∧ BelowFields maxValueSize fields r
  | [], [] => by simp [AdmitsFields, ShapedFields, BelowFields]
  | [], _ :: _ | _ :: _, [] => by simp [AdmitsFields, ShapedFields]
  | f :: fields, values :: rest => by
      simp only [AdmitsFields, ShapedFields, BelowFields, Field.admits_iff f,
        admitsFields_iff fields]
      tauto

end

mutual

variable {limit limit' : Nat}

theorem Kind.Below.mono (hle : limit ≤ limit') : ∀ (kind : Kind) (v : Value),
    kind.Below limit v → kind.Below limit' v
  | .hash, _, _ | .int, _, _ | .uint, _, _ | .bool, _, _ | .enum _, _, _ => by simp [Kind.Below]
  | .bytes, v, h => by
      cases v with
      | bytes v => exact Nat.lt_of_lt_of_le h hle
      | _ => simp [Kind.Below]
  | .string, v, h => by
      cases v with
      | string v => exact Nat.lt_of_lt_of_le h hle
      | _ => simp [Kind.Below]
  | .bigInt, v, h => by
      cases v with
      | bigInt v => exact Nat.lt_of_lt_of_le h hle
      | _ => simp [Kind.Below]
  | .value fields, v, h => by
      cases v with
      | record r => exact ⟨BelowFields.mono hle fields r h.1, Nat.lt_of_lt_of_le h.2 hle⟩
      | _ => simp [Kind.Below]

theorem Field.Below.mono (hle : limit ≤ limit') :
    ∀ (f : Field) (values : List Value), f.Below limit values → f.Below limit' values
  | .mk _ _ kind, _, h => fun v hv => Kind.Below.mono hle kind v (h v hv)

theorem BelowFields.mono (hle : limit ≤ limit') :
    ∀ (fields : List Field) (r : List (List Value)), BelowFields limit fields r →
      BelowFields limit' fields r
  | [], _, _ => trivial
  | _ :: _, [], _ => trivial
  | f :: fields, values :: rest, h =>
    ⟨Field.Below.mono hle f values h.1, BelowFields.mono hle fields rest h.2⟩

end

end Accumulate.Encoding
