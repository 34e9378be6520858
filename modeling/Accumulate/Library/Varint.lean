import Mathlib.Data.Nat.Digits.Lemmas

/-!
# Variable-length integers

Numbers as bytes: the base-128 encoding with a continuation bit, least significant group first,
its zigzag form for signed numbers, and the shortest big-endian form.  Reading stops after ten
bytes, the most a 64-bit number takes; each reader gives back what the writer was given and leaves
what follows it.
-/

namespace Accumulate.Library

/-- Write an unsigned number in groups of seven bits. -/
def putUvarint (x : Nat) : List UInt8 :=
  if x < 128 then [UInt8.ofNat x] else UInt8.ofNat (x % 128 + 128) :: putUvarint (x / 128)
termination_by x
decreasing_by omega

/-- Why an unsigned number could not be read. -/
inductive VarintError where
  | eof
  | unexpectedEOF
  | overflow
deriving DecidableEq, Repr

/-- The longest encoding of a 64-bit number. -/
def maxVarintLen64 : Nat := 10

/-- The loop that reads an unsigned number: `fuel` bytes may still be read, `x` has been read so
far and the next group is shifted by `s`. -/
def readUvarintLoop : (fuel x s : Nat) → List UInt8 → Except VarintError Nat × List UInt8
  | 0, _, _, input => (.error .overflow, input)
  | fuel + 1, _, _, [] =>
    (.error (if fuel + 1 = maxVarintLen64 then .eof else .unexpectedEOF), [])
  | fuel + 1, x, s, b :: rest =>
    if b.toNat < 128 then
      -- the tenth byte holds the highest bit only
      if fuel = 0 ∧ b.toNat > 1 then (.error .overflow, rest)
      else (.ok (x ||| b.toNat <<< s), rest)
    else readUvarintLoop fuel (x ||| (b.toNat % 128) <<< s) (s + 7) rest

def readUvarint (input : List UInt8) : Except VarintError Nat × List UInt8 :=
  readUvarintLoop maxVarintLen64 0 0 input

theorem or_shiftLeft_eq {x s : Nat} (hx : x < 2 ^ s) (v : Nat) : x ||| v <<< s = x + v * 2 ^ s := by
  rw [Nat.or_comm, ← Nat.shiftLeft_add_eq_or_of_lt hx, Nat.shiftLeft_eq, Nat.add_comm]

/-- The loop reads the rest of a number that fits in 64 bits.  It is at byte `i` with a shift of
`7 * i`, and what has been read so far is below that shift. -/
theorem readUvarintLoop_putUvarint (v : Nat) {fuel x s : Nat} (hs : s + 7 * (fuel + 1) = 70)
    (hx : x < 2 ^ s) (hv : v * 2 ^ s < 2 ^ 64) (rest : List UInt8) :
    readUvarintLoop (fuel + 1) x s (putUvarint v ++ rest) = (.ok (x + v * 2 ^ s), rest) := by
  induction v using Nat.strongRecOn generalizing fuel x s with
  | ind v ih =>
    rw [putUvarint]
    by_cases hsmall : v < 128
    · have hbyte : (UInt8.ofNat v).toNat = v := by
        exact Nat.mod_eq_of_lt (by omega)
      have hlast : ¬ (fuel = 0 ∧ v > 1) := by
        rintro ⟨rfl, hbig⟩
        obtain rfl : s = 63 := by omega
        omega
      rw [if_pos hsmall, List.singleton_append, readUvarintLoop, hbyte, if_pos hsmall,
        if_neg hlast, or_shiftLeft_eq hx]
    · have hbyte : (UInt8.ofNat (v % 128 + 128)).toNat = v % 128 + 128 := by
        exact Nat.mod_eq_of_lt (by omega)
      have hpow : 2 ^ (s + 7) = 128 * 2 ^ s := by rw [Nat.pow_add, Nat.mul_comm]
      have hsplit : v % 128 * 2 ^ s + v / 128 * 2 ^ (s + 7) = v * 2 ^ s := by
        rw [hpow, ← Nat.mul_assoc, ← Nat.add_mul]
        congr 1
        omega
      -- there is a next byte: the tenth one would not have been reached with a number this large
      obtain ⟨fuel, rfl⟩ : ∃ fuel', fuel = fuel' + 1 := by
        cases fuel with
        | zero =>
          obtain rfl : s = 63 := by omega
          omega
        | succ fuel => exact ⟨fuel, rfl⟩
      have hnext : x + v % 128 * 2 ^ s < 2 ^ (s + 7) := by
        have hgroup : v % 128 + 1 ≤ 128 := by omega
        have hbound : (v % 128 + 1) * 2 ^ s ≤ 128 * 2 ^ s := Nat.mul_le_mul_right _ hgroup
        rw [Nat.add_mul] at hbound
        omega
      have hrest := ih (v / 128) (by omega) (by omega : s + 7 + 7 * (fuel + 1) = 70) hnext
        (by omega)
      rw [if_neg hsmall, List.cons_append, readUvarintLoop, hbyte, if_neg (by omega),
        Nat.add_mod_right, Nat.mod_mod, or_shiftLeft_eq hx, hrest, Nat.add_assoc, hsplit]

theorem readUvarint_putUvarint {v : Nat} (hv : v < 2 ^ 64) (rest : List UInt8) :
    readUvarint (putUvarint v ++ rest) = (.ok v, rest) := by
  have hloop := @readUvarintLoop_putUvarint v 9 0 0 rfl (by decide) (by omega) rest
  rw [Nat.zero_add, Nat.pow_zero, Nat.mul_one] at hloop
  exact hloop

theorem readUvarint_nil : readUvarint [] = (.error .eof, []) := rfl

theorem putUvarint_of_lt {v : Nat} (hv : v < 128) : putUvarint v = [UInt8.ofNat v] := by
  rw [putUvarint, if_pos hv]

theorem putUvarint_ne_nil (v : Nat) : putUvarint v ≠ [] := by
  rw [putUvarint]
  split <;> simp

/-! ## Signed numbers -/

/-- The sign goes to the lowest bit. -/
def zigzag (x : Int) : Nat := if x < 0 then (-(2 * x) - 1).toNat else (2 * x).toNat

def unzigzag (ux : Nat) : Int := if ux % 2 = 1 then -((ux / 2 : Nat) : Int) - 1 else (ux / 2 : Nat)

theorem unzigzag_zigzag (x : Int) : unzigzag (zigzag x) = x := by
  unfold unzigzag zigzag
  split <;> split <;> omega

theorem zigzag_lt {x : Int} (hlow : -2 ^ 63 ≤ x) (hhigh : x < 2 ^ 63) : zigzag x < 2 ^ 64 := by
  unfold zigzag
  split <;> omega

/-! ## Big-endian numbers -/

/-- The shortest big-endian form. -/
def toBigEndian (n : Nat) : List UInt8 := ((Nat.digits 256 n).map UInt8.ofNat).reverse

def ofBigEndian (b : List UInt8) : Nat := Nat.ofDigits 256 (b.reverse.map UInt8.toNat)

theorem ofBigEndian_toBigEndian (n : Nat) : ofBigEndian (toBigEndian n) = n := by
  have hdigits : ((Nat.digits 256 n).map UInt8.ofNat).map UInt8.toNat = Nat.digits 256 n := by
    rw [List.map_map]
    refine (List.map_congr_left fun d hd => ?_).trans (List.map_id _)
    have hlt : d < 256 := Nat.digits_lt_base (by decide) hd
    exact Nat.mod_eq_of_lt hlt
  rw [ofBigEndian, toBigEndian, List.reverse_reverse, hdigits, Nat.ofDigits_digits]

end Accumulate.Library
