import Accumulate.Library.BitTrie

/-!
# Words of 32 bytes

A word of 256 bits is the array of its 32 bytes, the most significant one first.
-/

namespace Accumulate.Library

def toBytes (k : BitVec 256) : List UInt8 :=
  (List.range 32).map fun i => ⟨ofBits 8 (((bits k).drop (8 * i)).take 8)⟩

def ofBytes (b : List UInt8) : BitVec 256 := ofBits 256 (b.flatMap fun x => bits x.toBitVec)

@[simp] theorem length_toBytes (k : BitVec 256) : (toBytes k).length = 32 := by
  simp [toBytes]

theorem flatMap_range_chunks {α : Type} (l : List α) (c n : Nat) :
    ((List.range n).flatMap fun i => (l.drop (c * i)).take c) = l.take (c * n) := by
  induction n with
  | zero => simp
  | succ n ih =>
    rw [List.range_succ, List.flatMap_append, ih, List.flatMap_singleton, Nat.mul_succ,
      List.take_add]

theorem ofBytes_toBytes (k : BitVec 256) : ofBytes (toBytes k) = k := by
  unfold ofBytes toBytes
  rw [List.flatMap_map]
  have hchunk : ∀ i ∈ List.range 32,
      bits (ofBits 8 (((bits k).drop (8 * i)).take 8)) = ((bits k).drop (8 * i)).take 8 := by
    intro i hi
    apply bits_ofBits
    rw [List.mem_range] at hi
    simp
    omega
  rw [List.flatMap_congr hchunk, flatMap_range_chunks,
    List.take_of_length_le (by simp), ofBits_bits]

variable {i j : Nat}

theorem getMsbD_toBytes {k : BitVec 256} (hi : i < 32) (hj : j < 8) :
    ((toBytes k)[i]?.getD 0).toBitVec.getMsbD j = k.getMsbD (8 * i + j) := by
  have hlength : (((bits k).drop (8 * i)).take 8).length = 8 := by simp; omega
  unfold toBytes
  rw [List.getElem?_map, List.getElem?_range hi, Option.map_some, Option.getD_some,
    getMsbD_ofBits hlength, List.getElem?_take_of_lt hj, List.getElem?_drop,
    getElem?_bits (by omega), Option.getD_some]

theorem getElem?_flatMap_bits (b : List UInt8) (hi : i < b.length) (hj : j < 8) :
    (b.flatMap fun x => bits x.toBitVec)[8 * i + j]? =
      some ((b[i]?.getD 0).toBitVec.getMsbD j) := by
  induction b generalizing i with
  | nil => simp at hi
  | cons x b ih =>
    rw [List.flatMap_cons]
    cases i with
    | zero =>
      rw [List.getElem?_append_left (by simp; omega), Nat.zero_add,
        getElem?_bits hj]
      rfl
    | succ i =>
      rw [List.length_cons] at hi
      rw [List.getElem?_append_right (by simp; omega), length_bits,
        show 8 * (i + 1) + j - 8 = 8 * i + j by omega, ih (by omega)]
      rfl

theorem getMsbD_ofBytes {b : List UInt8} (hb : b.length = 32) (hi : i < 32) (hj : j < 8) :
    (ofBytes b).getMsbD (8 * i + j) = (b[i]?.getD 0).toBitVec.getMsbD j := by
  have hlength : (b.flatMap fun x => bits x.toBitVec).length = 256 := by
    simp [hb]
  unfold ofBytes
  rw [getMsbD_ofBits hlength, getElem?_flatMap_bits b (by omega) hj, Option.getD_some]

end Accumulate.Library
