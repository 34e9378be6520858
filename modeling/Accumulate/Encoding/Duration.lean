import Accumulate.Encoding.RoundTrip
import Accumulate.Smt.Marshal

/-!
# Durations

A duration is a signed number of nanoseconds.  `SplitDuration` of `internal/encoding/utils.go`
makes two numbers of it, which `WriteDuration` and `DurationMarshalBinary` write one after the
other.  The seconds are truncated but the nanoseconds are taken from the nearest second, and
`DurationUnmarshalBinary` reads both numbers from the same place.
-/

namespace Accumulate.Encoding

open Library
open Smt.MerkleState (uvarint uvarint_put)

def second : Int64 := 1000000000

def lessThanHalf (x y : Int64) : Bool := x.toUInt64 + x.toUInt64 < y.toUInt64

/-- `Duration.Round`: halves are rounded away from zero, and what does not fit is the largest or
the smallest duration. -/
def round (d m : Int64) : Int64 :=
  if m ≤ 0 then d
  else
    let r := d % m
    if d < 0 then
      if lessThanHalf (-r) m then d - r
      else if d - m - r < d then d - m - r
      else Int64.minValue
    else if lessThanHalf r m then d - r
    else if d + m - r > d then d + m - r
    else Int64.maxValue

/-- `SplitDuration`, with the whole seconds for the truncation of `d.Seconds()`. -/
def splitDuration (d : Int64) : UInt64 × UInt64 :=
  (UInt64.ofNat (d.toInt.toNat / 1000000000), (d - round d second).toUInt64)

/-- The sum that both readers return. -/
def joinDuration (sec ns : Nat) : Int64 := Int64.ofNat sec * second + Int64.ofNat ns

def Writer.writeDuration (w : Writer) (n : Nat) (v : Int64) : Writer :=
  let (sec, ns) := splitDuration v
  ((w.writeField n).writeUintValue n sec).writeUintValue n ns

/-- The value of `ReadDuration`.  Seconds that cannot be read leave an error, so that the
nanoseconds are not read either. -/
def Reader.readDurationValue (r : Reader) (n : Nat) : Option Int64 × Reader :=
  let (sec, r) := r.readUintValue n
  let (ns, r) := r.readUintValue n
  match ns with
  | none => (none, r)
  | some ns => (some (joinDuration (sec.getD 0) ns), r)

def Reader.readDuration (r : Reader) (n : Nat) : Option Int64 × Reader :=
  r.whenField n fun r => r.readDurationValue n

def durationMarshalBinary (d : Int64) : List UInt8 :=
  let (sec, ns) := splitDuration d
  putUvarint sec.toNat ++ putUvarint ns.toNat

/-- The nanoseconds are decoded from `b` again, not from what follows the seconds. -/
def durationUnmarshalBinary (b : List UInt8) : Outcome String Int64 := do
  let (sec, _) ← (uvarint b).mapError ("error decoding seconds: " ++ ·)
  let (ns, _) ← (uvarint b).mapError ("error decoding nanoseconds: " ++ ·)
  return joinDuration sec ns

variable {d : Int64}

theorem lessThanHalf_iff {x y : Int64} (hx : 0 ≤ x.toInt) (hy : 0 ≤ y.toInt) :
    lessThanHalf x y = true ↔ 2 * x.toInt < y.toInt := by
  have hnat : ∀ z : Int64, 0 ≤ z.toInt → (z.toUInt64.toNat : Int) = z.toInt := by
    intro z hz
    rw [Int64.toNat_toUInt64_of_le (Int64.le_iff_toInt_le.2 hz)]
    exact Int.toNat_of_nonneg hz
  have hbound := Int64.toInt_lt x
  rw [lessThanHalf, decide_eq_true_iff, UInt64.lt_iff_toNat_lt, UInt64.toNat_add]
  have hxn := hnat x hx
  have hyn := hnat y hy
  omega

theorem toInt_second : second.toInt = 1000000000 := by decide

/-- The nanoseconds are what is beyond the last second before the middle of a second, and not
positive from there on. -/
theorem sub_round (hd : 0 ≤ d.toInt) :
    (d.toInt % 1000000000 < 500000000 ∧ (d - round d second).toInt = d.toInt % 1000000000) ∨
      (500000000 ≤ d.toInt % 1000000000 ∧ (d - round d second).toInt ≤ 0) := by
  have hmax := Int64.toInt_lt d
  have hr : (d % second).toInt = d.toInt % 1000000000 := by
    rw [Int64.toInt_mod, toInt_second, Int.tmod_eq_emod_of_nonneg hd]
  have hhalf : lessThanHalf (d % second) second = true ↔ d.toInt % 1000000000 < 500000000 := by
    rw [lessThanHalf_iff (by omega) (by decide), hr, toInt_second]
    omega
  unfold round
  rw [if_neg (by decide), if_neg (by rw [Int64.lt_iff_toInt_lt]; simpa using hd)]
  by_cases hlow : d.toInt % 1000000000 < 500000000
  · rw [if_pos (hhalf.2 hlow), Int64.toInt_sub, Int64.toInt_sub, hr, Int.bmod_def, Int.bmod_def]
    omega
  · rw [if_neg (by rwa [hhalf])]
    refine .inr ⟨by omega, ?_⟩
    split
    · rename_i hgt
      rw [gt_iff_lt, Int64.lt_iff_toInt_lt] at hgt
      rw [Int64.toInt_sub, Int.bmod_def]
      have hhigh := Int64.toInt_lt (d + second - d % second)
      omega
    · have htop : Int64.maxValue.toInt = 2 ^ 63 - 1 := by decide
      rw [Int64.toInt_sub, htop, Int.bmod_def]
      omega

theorem toNat_seconds (hd : 0 ≤ d.toInt) :
    ((splitDuration d).1.toNat : Int) = d.toInt / 1000000000 := by
  have hmax := Int64.toInt_lt d
  rw [splitDuration, UInt64.toNat_ofNat']
  omega

theorem joinDuration_eq_iff {sec ns : Nat} {x : Int64} (hd : 0 ≤ d.toInt) (hx : Int64.ofNat ns = x)
    (hsec : (sec : Int) * 1000000000 < 2 ^ 63) :
    joinDuration sec ns = d ↔ sec * 1000000000 + x.toInt = d.toInt := by
  have hmax := Int64.toInt_lt d
  have hlow := Int64.le_toInt x
  have hhigh := Int64.toInt_lt x
  rw [← Int64.toInt_inj, joinDuration, hx, Int64.toInt_add, Int64.toInt_mul, toInt_second,
    Int64.toInt_ofNat_of_lt (by omega), Int.bmod_def, Int.bmod_def]
  omega

theorem joinDuration_split (hd : 0 ≤ d.toInt) :
    joinDuration (splitDuration d).1.toNat (splitDuration d).2.toNat = d ↔
      d.toInt % 1000000000 < 500000000 := by
  have hsec := toNat_seconds hd
  have hx : Int64.ofNat (splitDuration d).2.toNat = d - round d second := by
    rw [splitDuration, ← UInt64.toInt64_ofNat', UInt64.ofNat_toNat, Int64.toInt64_toUInt64]
  have hns := sub_round hd
  have hmax := Int64.toInt_lt d
  rw [joinDuration_eq_iff hd hx (by omega), hsec]
  omega

theorem joinDuration_same (hd : 0 ≤ d.toInt) :
    joinDuration (splitDuration d).1.toNat (splitDuration d).1.toNat = d ↔
      d.toInt % 1000000000 = d.toInt / 1000000000 := by
  have hsec := toNat_seconds hd
  have hmax := Int64.toInt_lt d
  have hx : (Int64.ofNat (splitDuration d).1.toNat).toInt = d.toInt / 1000000000 := by
    rw [Int64.toInt_ofNat_of_lt (by omega), hsec]
  rw [joinDuration_eq_iff hd rfl (by omega), hsec, hx]
  omega

variable {n : Nat}

theorem reads_durationValue {sec ns : Nat} (hsec : sec < 2 ^ 64) (hns : ns < 2 ^ 64) :
    Reader.Reads (fun r => r.readDurationValue n) (putUvarint sec ++ putUvarint ns)
      (joinDuration sec ns) := by
  intro r rest h
  rw [List.append_assoc] at h
  obtain ⟨r₁, hfirst, h₁⟩ := Reader.reads_uintValue hsec n r _ h
  obtain ⟨r₂, hsecond, h₂⟩ := Reader.reads_uintValue hns n r₁ rest h₁
  refine ⟨r₂, ?_, h₂⟩
  simp only [Reader.readDurationValue, hfirst, hsecond]
  rfl

theorem readDuration_writeDuration (hn : 0 < n ∧ n ≤ 32) (d : Int64) :
    ((Reader.new (Writer.new.writeDuration n d).buffer).readDuration n).1 =
      some (joinDuration (splitDuration d).1.toNat (splitDuration d).2.toNat) := by
  have hfirst := Writer.wrote_writeUint (rfl : Writer.new.err = none) hn (splitDuration d).1
  have hboth := hfirst.trans (Writer.wrote_put hfirst.err n
    (putUvarint (splitDuration d).2.toNat) "failed to write field")
  have hbuffer : (Writer.new.writeDuration n d).buffer =
      object [(n, putUvarint (splitDuration d).1.toNat ++
        putUvarint (splitDuration d).2.toNat)] := by
    refine hboth.buffer.trans ?_
    simp [object, Writer.new]
  have hread := reads_durationValue (n := n) (UInt64.toNat_lt (splitDuration d).1)
    (UInt64.toNat_lt (splitDuration d).2)
  obtain ⟨r', hval, -⟩ := Reader.Reads.whenField hn hread (at_new [(n, _)])
  rw [hbuffer, Reader.readDuration, hval]

theorem durationUnmarshalBinary_marshal (d : Int64) :
    durationUnmarshalBinary (durationMarshalBinary d) =
      .ok (joinDuration (splitDuration d).1.toNat (splitDuration d).1.toNat) := by
  rw [durationMarshalBinary, durationUnmarshalBinary, uvarint_put (UInt64.toNat_lt _)]
  rfl

/-- The reader gives back the durations in the first half of a second.  The decoder gives back
those with as many nanoseconds as seconds. -/
theorem duration_roundTrip_iff (hn : 0 < n ∧ n ≤ 32) (hd : 0 ≤ d.toInt) :
    (((Reader.new (Writer.new.writeDuration n d).buffer).readDuration n).1 = some d ↔
      d.toInt % 1000000000 < 500000000) ∧
    (durationUnmarshalBinary (durationMarshalBinary d) = .ok d ↔
      d.toInt % 1000000000 = d.toInt / 1000000000) := by
  rw [readDuration_writeDuration hn, durationUnmarshalBinary_marshal, Option.some_inj,
    Outcome.ok.injEq, joinDuration_split hd, joinDuration_same hd]
  exact ⟨Iff.rfl, Iff.rfl⟩

/-- Seven tenths of a second are read back as minus three tenths, one second as a second and a
nanosecond. -/
theorem duration_roundTrip_fails :
    ((Reader.new (Writer.new.writeDuration 1 700000000).buffer).readDuration 1).1 =
        some (-300000000) ∧
      durationUnmarshalBinary (durationMarshalBinary 1000000000) = .ok 1000000001 := by
  constructor
  · rw [readDuration_writeDuration (by decide)]
    decide +kernel
  · rw [durationUnmarshalBinary_marshal]
    decide +kernel

theorem duration_roundTrip_iff_at_second :
    (((Reader.new (Writer.new.writeDuration 1 1000000000).buffer).readDuration 1).1 =
        some 1000000000 ↔ (1000000000 : Int64).toInt % 1000000000 < 500000000) ∧
      (durationUnmarshalBinary (durationMarshalBinary 1000000000) = .ok 1000000000 ↔
        (1000000000 : Int64).toInt % 1000000000 = (1000000000 : Int64).toInt / 1000000000) :=
  duration_roundTrip_iff (by decide) (by decide)

end Accumulate.Encoding
