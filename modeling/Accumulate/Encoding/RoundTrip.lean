import Accumulate.Encoding.Limits

/-!
# Reading back what has been written

The writer and the reader meet at the list of tokens of a record, a field number with the encoding
of a value each.  The writer appends them to its buffer (`writeFields_spec`).  The reader is always
at some suffix of the list (`Reader.At`), possibly with the next field number already read, and
reading a field takes the tokens with its number (`readFields_spec`).  A record of the right form
is written and read back if and only if all its byte strings and all its nested values are below
the limit, at every depth.
-/

namespace Accumulate.Encoding

open Library

abbrev Tokens := List (Nat × List UInt8)

@[simp] theorem flat_nil : flat [] = [] := rfl

@[simp] theorem flat_cons (t : Nat × List UInt8) (tokens : Tokens) :
    flat (t :: tokens) = putUvarint t.1 ++ (t.2 ++ flat tokens) := by
  simp [flat]

@[simp] theorem flat_append (ts us : Tokens) :
    flat (ts ++ us) = flat ts ++ flat us := by
  simp [flat]

variable {tokens : Tokens}

theorem flat_eq_nil : flat tokens = [] ↔ tokens = [] := by
  cases tokens with
  | nil => simp
  | cons t tokens => simp [putUvarint_ne_nil]

/-! ## Writing -/

/-- The writer has appended some bytes without an error. -/
structure Writer.Wrote (w w' : Writer) (b : List UInt8) : Prop where
  err : w'.err = none
  buffer : w'.buffer = w.buffer ++ b
  written : w'.written = w.written + b.length

namespace Writer

variable {w w' w'' : Writer} {b b' : List UInt8} {n : Nat}

theorem Wrote.refl (hw : w.err = none) : w.Wrote w [] := ⟨hw, by simp, rfl⟩

theorem Wrote.trans (h : w.Wrote w' b) (h' : w'.Wrote w'' b') : w.Wrote w'' (b ++ b') where
  err := h'.err
  buffer := by rw [h'.buffer, h.buffer, List.append_assoc]
  written := by rw [h'.written, h.written, List.length_append, Nat.add_assoc]

section

variable (hw : w.err = none)

include hw

theorem wrote_put (field : Nat) (b : List UInt8) (format : String) :
    w.Wrote (w.put field b format) b := by
  unfold put
  rw [if_neg (by simp [hw])]
  exact ⟨hw, rfl, rfl⟩

theorem wrote_writeField (hn : 0 < n ∧ n ≤ 32) : w.Wrote (w.writeField n) (putUvarint n) := by
  unfold writeField
  rw [if_neg (by simp [hw]), if_neg (by omega)]
  exact ⟨hw, rfl, rfl⟩

theorem wrote_writeRaw (hb : b.length ≤ maxValueSize) : w.Wrote (w.writeRaw n b) b := by
  unfold writeRaw
  rw [if_neg (by simp [hw]), if_neg (by omega)]
  exact ⟨hw, rfl, rfl⟩

theorem wrote_writeUint (hn : 0 < n ∧ n ≤ 32) (v : UInt64) :
    w.Wrote (w.writeUint n v) (putUvarint n ++ putUvarint v.toNat) := by
  have hfield := wrote_writeField hw hn
  exact hfield.trans (wrote_put hfield.err n _ _)

theorem wrote_writeBytes (hn : 0 < n ∧ n ≤ 32) (hb : b.length < maxValueSize + 1) :
    w.Wrote (w.writeBytes n b) (putUvarint n ++ counted b) := by
  have hsize : (UInt64.ofNat b.length).toNat = b.length := by
    rw [UInt64.toNat_ofNat']
    have hlimit : maxValueSize < 2 ^ 64 := by decide
    omega
  have hlength := wrote_writeUint hw hn (UInt64.ofNat b.length)
  rw [hsize] at hlength
  have hraw := hlength.trans (wrote_writeRaw (n := n) hlength.err (Nat.le_of_lt_succ hb))
  rw [List.append_assoc] at hraw
  exact hraw

end

end Writer

variable {w : Writer}

theorem Writer.Wrote.reset (h : Writer.new.Wrote w (flat tokens))
    (fieldNames : Option (List String)) :
    (w.reset fieldNames).1.2.2 = none ∧ (w.reset fieldNames).2.buffer = object tokens := by
  obtain ⟨herr, hbuffer, hwritten⟩ := h
  have hbuffer : w.buffer = flat tokens := hbuffer
  have hwritten : w.written = (flat tokens).length := hwritten.trans (Nat.zero_add _)
  have hnone : ∀ last, fieldError fieldNames last none = none := by
    intro last
    cases fieldNames <;> rfl
  unfold Writer.reset object
  by_cases hempty : tokens = []
  · subst hempty
    have hzero : w.written = 0 := hwritten
    simp [hzero, Writer.didWrite, herr, hbuffer, hnone]
  · have hne : w.written ≠ 0 := by
      rw [hwritten]
      intro hzero
      exact hempty (flat_eq_nil.1 (List.length_eq_zero_iff.1 hzero))
    simp [hne, herr, hbuffer, hnone, hempty]

theorem marshalled_eq (h : Writer.new.Wrote w (flat tokens)) :
    marshalled w = (object tokens, none) := by
  obtain ⟨herr, hbuffer⟩ := h.reset none
  unfold marshalled
  rcases hreset : w.reset none with ⟨⟨written, last, err⟩, w'⟩
  rw [hreset] at herr hbuffer
  subst herr
  rw [← hbuffer]

/-- The writer has appended the bytes if the condition holds, and has an error otherwise. -/
structure Writer.Writes (w w' : Writer) (ok : Prop) (b : List UInt8) : Prop where
  wrote : ok → w.Wrote w' b
  refused : ¬ ok → w'.err.isSome

section

variable {w' w'' : Writer} {ok ok' : Prop} {b b' : List UInt8}

theorem Writer.Wrote.writes (h : w.Wrote w' b) (hok : ok) : w.Writes w' ok b :=
  ⟨fun _ => h, fun hnot => absurd hok hnot⟩

theorem Writer.Writes.trans (h : w.Writes w' ok b) (h' : w'.err = none → w'.Writes w'' ok' b')
    (herr : w'.err.isSome → w''.err.isSome) : w.Writes w'' (ok ∧ ok') (b ++ b') := by
  constructor
  · rintro ⟨hok, hok'⟩
    have hfirst := h.wrote hok
    exact hfirst.trans ((h' hfirst.err).wrote hok')
  · intro hnot
    by_cases hok : ok
    · exact (h' (h.wrote hok).err).refused fun hok' => hnot ⟨hok, hok'⟩
    · exact herr (h.refused hok)

end

variable {n : Nat} {values : List Value} {payload : Value → List UInt8}

theorem Writer.writeBytes_large {b : List UInt8} (hw : w.err = none) (hn : 0 < n ∧ n ≤ 32)
    (hb : ¬ b.length < maxValueSize + 1) : (w.writeBytes n b).err.isSome := by
  have hlength : ((w.writeField n).writeUintValue n (UInt64.ofNat b.length)).err = none :=
    (Writer.wrote_writeUint hw hn _).err
  unfold Writer.writeBytes Writer.writeRaw
  rw [if_neg (by simp [hlength]), if_pos (by omega)]
  rfl

theorem marshalled_err (h : w.err.isSome) : (marshalled w).2.isSome := by
  obtain ⟨e, he⟩ := Option.isSome_iff_exists.1 h
  have hreset : (w.reset none).1.2.2 = some e := by
    unfold Writer.reset
    split
    · exact he
    · exact he
  unfold marshalled
  split
  · rename_i hnone
    rw [hnone] at hreset
    exact absurd hreset nofun
  · rfl

theorem Writer.writeValue_err {m : List UInt8 × Option String} (hw : w.err = none)
    (hm : m.2.isSome) :
    (w.writeValue n m).err.isSome := by
  obtain ⟨e, he⟩ := Option.isSome_iff_exists.1 hm
  have herr : (w.didMarshal n m.2).err.isSome := by
    unfold Writer.didMarshal
    rw [if_neg (by simp [hw]), he]
    rfl
  rw [Writer.writeValue, Writer.writeBytes_of_err herr]
  exact herr

theorem Writer.writes_writeBytes {b : List UInt8} (hw : w.err = none) (hn : 0 < n ∧ n ≤ 32) :
    w.Writes (w.writeBytes n b) (b.length < maxValueSize + 1) (putUvarint n ++ counted b) :=
  ⟨wrote_writeBytes hw hn, writeBytes_large hw hn⟩

theorem foldl_writes {kind : Kind} {ok : Value → Prop}
    (hwrite : ∀ v ∈ values, ∀ w : Writer, w.err = none →
      w.Writes (kind.write n v w) (ok v) (putUvarint n ++ payload v)) (hw : w.err = none) :
    w.Writes (values.foldl (fun w v => kind.write n v w) w) (∀ v ∈ values, ok v)
      (flat (values.map fun v => (n, payload v))) := by
  induction values generalizing w with
  | nil => exact (Writer.Wrote.refl hw).writes nofun
  | cons v values ih =>
    rw [List.forall_mem_cons]
    refine (hwrite v List.mem_cons_self w hw).trans ?_ (foldl_write_err kind n)
    exact ih fun u hu => hwrite u (List.mem_cons_of_mem v hu)

mutual

theorem Kind.write_spec : ∀ (kind : Kind) (n : Nat) (v : Value) (w : Writer),
    kind.WellFormed → kind.Shaped v → 0 < n ∧ n ≤ 32 → w.err = none →
      w.Writes (kind.write n v w) (kind.Below (maxValueSize + 1) v) (putUvarint n ++ kind.payload v)
  | .hash, n, v, w, _, hv, hn, hw => by
      cases v with
      | hash v =>
        have hv : v.length = 32 := hv
        have hfield := Writer.wrote_writeField hw hn
        have hraw := Writer.wrote_writeRaw (n := n) hfield.err (by rw [hv]; decide)
        exact (hfield.trans hraw).writes trivial
      | _ => exact hv.elim
  | .int, n, v, w, _, hv, hn, hw => by
      cases v with
      | int v =>
        have hfield := Writer.wrote_writeField hw hn
        exact (hfield.trans (Writer.wrote_put hfield.err n _ _)).writes trivial
      | _ => exact hv.elim
  | .uint, n, v, w, _, hv, hn, hw => by
      cases v with
      | uint v => exact (Writer.wrote_writeUint hw hn v).writes trivial
      | _ => exact hv.elim
  | .bool, n, v, w, _, hv, hn, hw => by
      cases v with
      | bool v =>
        have hwrote := Writer.wrote_writeUint hw hn (if v then 1 else 0)
        cases v <;> exact hwrote.writes trivial
      | _ => exact hv.elim
  | .bytes, n, v, w, _, hv, hn, hw => by
      cases v with
      | bytes v => exact Writer.writes_writeBytes hw hn
      | _ => exact hv.elim
  | .string, n, v, w, _, hv, hn, hw => by
      cases v with
      | string v => exact Writer.writes_writeBytes hw hn
      | _ => exact hv.elim
  | .bigInt, n, v, w, _, hv, hn, hw => by
      cases v with
      | bigInt v =>
        have hpos : 0 ≤ v := hv
        show w.Writes (w.writeBigInt n v) _ _
        unfold Writer.writeBigInt
        rw [if_neg (by omega)]
        exact Writer.writes_writeBytes hw hn
      | _ => exact hv.elim
  | .enum _, n, v, w, _, hv, hn, hw => by
      cases v with
      | enum v => exact (Writer.wrote_writeUint hw hn v).writes trivial
      | _ => exact hv.elim
  | .value fields, n, v, w, hfields, hv, hn, hw => by
      cases v with
      | record r =>
        have hinner := writeFields_spec fields r .new 0 hfields hv rfl
        show w.Writes (w.writeValue n (marshalled (writeFields fields r .new))) (_ ∧ _) _
        by_cases hinside : BelowFields (maxValueSize + 1) fields r
        · -- the value is marshalled, and its encoding may be too large
          rw [marshalled_eq (hinner.wrote hinside)]
          show w.Writes ((w.didMarshal n none).writeBytes n (object (tokensOf fields r))) _ _
          unfold Writer.didMarshal
          rw [if_neg (by simp [hw])]
          obtain ⟨hwrote, hrefused⟩ :=
            Writer.writes_writeBytes (b := object (tokensOf fields r)) hw hn
          exact ⟨fun h => hwrote h.2, fun h => hrefused fun hsize => h ⟨hinside, hsize⟩⟩
        · exact ⟨fun h => absurd h.1 hinside,
            fun _ => Writer.writeValue_err hw (marshalled_err (hinner.refused hinside))⟩
      | _ => exact hv.elim

theorem Field.write_spec : ∀ (f : Field) (values : List Value) (w : Writer),
    f.WellFormed → f.Shaped values → 0 < f.number ∧ f.number ≤ 32 → w.err = none →
      w.Writes (f.write values w) (f.Below (maxValueSize + 1) values) (flat (f.tokens values))
  | .mk number repeatable kind, values, w, hf, hvalues, hn, hw =>
    foldl_writes (fun v hv w hw => Kind.write_spec kind number v w hf (hvalues.2 v hv) hn hw) hw

theorem writeFields_spec : ∀ (fields : List Field) (r : List (List Value)) (w : Writer) (n : Nat),
    WellFormedFields n fields → ShapedFields fields r → w.err = none →
      w.Writes (writeFields fields r w) (BelowFields (maxValueSize + 1) fields r)
        (flat (tokensOf fields r))
  | [], [], w, _, _, _, hw => (Writer.Wrote.refl hw).writes trivial
  | [], _ :: _, _, _, _, hr, _ => hr.elim
  | _ :: _, [], _, _, _, hr, _ => hr.elim
  | f :: fields, values :: rest, w, n, hfields, hr, hw => by
      obtain ⟨hlow, hhigh, hf, hrest⟩ := hfields
      have hfirst := Field.write_spec f values w hf hr.1 ⟨by omega, hhigh⟩ hw
      show w.Writes _ (_ ∧ _) (flat (f.tokens values ++ tokensOf fields rest))
      rw [flat_append]
      exact hfirst.trans (fun hw => writeFields_spec fields rest _ f.number hrest hr.2 hw)
        writeFields_err

end

/-! ## Reading -/

/-- The reader has read a field number and is at the given input. -/
structure Reader.Ready (r : Reader) (input : List UInt8) : Prop where
  err : r.err = none
  current : r.current = 0
  input : r.input = input

/-- The reader is at the given tokens, and has looked at the beginning of the input. -/
inductive Reader.Opened : Reader → Tokens → Prop where
  /-- The next field number has not been read. -/
  | between {r : Reader} {tokens : Tokens} (h : r.Ready (flat tokens)) :
      Opened r tokens
  /-- The next field number has been read. -/
  | ahead {r : Reader} {t : Nat × List UInt8} {tokens : Tokens}
      (herr : r.err = none) (hcurrent : r.current = t.1) (hinput : r.input = t.2 ++ flat tokens) :
      Opened r (t :: tokens)
  /-- The marker of an empty object has been read. -/
  | marked {r : Reader} (herr : r.err = none) (hcurrent : r.current = emptyObject.toNat)
      (hinput : r.input = []) : Opened r []

/-- The reader is at the given tokens. -/
inductive Reader.At : Reader → Tokens → Prop where
  | opened {r : Reader} {tokens : Tokens} (h : r.Opened tokens) : At r tokens
  /-- The marker of an empty object has not been read. -/
  | unmarked {r : Reader} (h : r.Ready [emptyObject]) (hseen : r.seen = []) : At r []

/-- All field numbers are between the given one and 32. -/
def Above (n : Nat) (tokens : Tokens) : Prop :=
  ∀ t ∈ tokens, n < t.1 ∧ t.1 ≤ 32

namespace Reader

variable {r : Reader} {n m : Nat} {p rest : List UInt8} {tokens : Tokens}
  {α : Type} {b : List UInt8}

theorem Opened.err (h : r.Opened tokens) : r.err = none := by
  cases h with
  | between h => exact h.err
  | ahead herr | marked herr => exact herr

theorem At.err (h : r.At tokens) : r.err = none := by
  cases h with
  | opened h | unmarked h => exact h.err

theorem Opened.input_nil (h : r.Opened []) : r.input = [] := by
  cases h with
  | between h => exact h.input
  | marked _ _ hinput => exact hinput

theorem At.length_le (h : r.At tokens) : tokens.length ≤ r.input.length + 1 := by
  have hflat : ∀ ts : Tokens, ts.length ≤ (flat ts).length := by
    intro ts
    induction ts with
    | nil => exact Nat.le_refl 0
    | cons t ts ih =>
      have hpos := List.length_pos_of_ne_nil (putUvarint_ne_nil t.1)
      simp only [flat_cons, List.length_append, List.length_cons]
      omega
  cases h with
  | unmarked h => simp
  | opened h =>
    cases h with
    | between h =>
      rw [h.input]
      exact Nat.le_succ_of_le (hflat tokens)
    | @ahead t ts _ _ hinput =>
      have hts := hflat ts
      rw [hinput, List.length_append, List.length_cons]
      omega
    | marked => simp

/-! ### Field numbers -/

theorem readFieldNumber_eq (hinput : r.input = putUvarint m ++ rest) (hm : 0 < m ∧ m ≤ 32) :
    ∃ seen, r.readFieldNumber = (true, { r with input := rest, current := m, seen := seen }) := by
  unfold readFieldNumber
  rw [hinput, readUvarint_putUvarint (by omega)]
  dsimp only
  rw [if_neg (by omega)]
  exact ⟨_, rfl⟩

theorem nextField_eq (hinput : r.input = putUvarint m ++ rest) (hm : 0 < m ∧ m ≤ 32) :
    ∃ seen, r.nextField = (true, { r with input := rest, current := m, seen := seen }) := by
  have hbyte : UInt8.ofNat m ≠ emptyObject := by
    intro heq
    have hnat := congrArg UInt8.toNat heq
    rw [UInt8.toNat_ofNat'] at hnat
    have hmarker : emptyObject.toNat = 128 := rfl
    omega
  have hinput' := hinput
  rw [putUvarint_of_lt (by omega), List.singleton_append] at hinput'
  unfold nextField
  rw [hinput']
  dsimp only
  split
  · exact readFieldNumber_eq hinput hm
  · exact readFieldNumber_eq hinput hm

theorem nextField_nil (hinput : r.input = []) : r.nextField = (false, r) := by
  have hnumber : r.readFieldNumber = (false, r) := by
    unfold readFieldNumber
    rw [hinput, readUvarint_nil, ← hinput]
  unfold nextField
  rw [hinput]
  split
  · rfl
  · exact hnumber

section

variable (hn : 0 < n ∧ n ≤ 32)

include hn

theorem readField_of_current (herr : r.err = none) (hcurrent : r.current ≠ 0) :
    r.readField n = r.matchField n := by
  unfold readField
  rw [if_neg (by simp [herr]), if_neg (by omega), if_neg hcurrent]

theorem readField_of_next (h : r.Ready rest) :
    r.readField n =
      match r.nextField with
      | (false, r) => (false, r)
      | (true, r) => r.matchField n := by
  unfold readField
  rw [if_neg (by simp [h.err]), if_neg (by omega)]
  exact if_pos h.current

theorem At.readField_of_eq (h : r.At ((n, p) :: tokens)) :
    ∃ r', r.readField n = (true, r') ∧ r'.Ready (p ++ flat tokens) := by
  have hmatch : ∀ r : Reader, r.err = none → r.current = n → r.input = p ++ flat tokens →
      ∃ r', r.matchField n = (true, r') ∧ r'.Ready (p ++ flat tokens) := by
    intro r herr hcurrent hinput
    unfold matchField
    rw [if_neg (by omega), if_neg (by omega)]
    exact ⟨_, rfl, herr, rfl, hinput⟩
  cases h with
  | opened h =>
    cases h with
    | between h =>
      have hinput := h.input
      rw [flat_cons] at hinput
      obtain ⟨seen, hnext⟩ := nextField_eq hinput hn
      rw [readField_of_next hn h, hnext]
      exact hmatch _ h.err rfl rfl
    | ahead herr hcurrent hinput =>
      rw [readField_of_current hn herr (by rw [hcurrent]; exact Nat.ne_of_gt hn.1)]
      exact hmatch r herr hcurrent hinput

theorem At.readField_of_lt (h : r.At tokens) (habove : Above n tokens) :
    ∃ r', r.readField n = (false, r') ∧ r'.Opened tokens := by
  have hmatch : ∀ r : Reader, n < r.current → r.matchField n = (false, r) := by
    intro r hlt
    unfold matchField
    rw [if_neg (by omega), if_pos hlt]
  cases h with
  | unmarked h hseen =>
    have hnext : r.nextField = (false, { r with input := [], current := emptyObject.toNat }) := by
      unfold nextField
      rw [if_pos hseen, h.input]
      rfl
    rw [readField_of_next hn h, hnext]
    exact ⟨_, rfl, .marked h.err rfl rfl⟩
  | opened h =>
    cases h with
    | between h =>
      cases tokens with
      | nil =>
        rw [readField_of_next hn h, nextField_nil h.input]
        exact ⟨_, rfl, .between h⟩
      | cons t tokens =>
        obtain ⟨hlt, hle⟩ := habove t List.mem_cons_self
        have hinput := h.input
        rw [flat_cons] at hinput
        obtain ⟨seen, hnext⟩ := nextField_eq hinput ⟨by omega, hle⟩
        rw [readField_of_next hn h, hnext]
        dsimp only
        rw [hmatch _ hlt]
        exact ⟨_, rfl, .ahead h.err rfl rfl⟩
    | ahead herr hcurrent hinput =>
      obtain ⟨hlt, -⟩ := habove _ List.mem_cons_self
      rw [readField_of_current hn herr (by omega), hmatch r (by omega)]
      exact ⟨_, rfl, .ahead herr hcurrent hinput⟩
    | marked herr hcurrent hinput =>
      have hmarker : emptyObject.toNat = 128 := rfl
      rw [readField_of_current hn herr (by omega), hmatch r (by omega)]
      exact ⟨_, rfl, .marked herr hcurrent hinput⟩

end

/-! ### Values -/

/-- The function reads a value from the given bytes, and leaves what follows them. -/
def Reads {α : Type} (read : Reader → Option α × Reader) (b : List UInt8) (v : α) : Prop :=
  ∀ (r : Reader) (rest : List UInt8), r.Ready (b ++ rest) →
    ∃ r', read r = (some v, r') ∧ r'.Ready rest

theorem Ready.didRead {input : List UInt8} (h : r.Ready input) (field : Nat) (format : String) :
    (r.didRead field none format).Ready input := by
  unfold Reader.didRead
  rw [if_neg (by simp [h.err])]
  exact ⟨rfl, h.current, h.input⟩

theorem reads_uintValue {v : Nat} (hv : v < 2 ^ 64) (n : Nat) :
    Reads (fun r => r.readUintValue n) (putUvarint v) v := by
  intro r rest h
  have hready : { r with input := rest }.Ready rest := ⟨h.err, h.current, rfl⟩
  refine ⟨_, ?_, hready.didRead n "failed to read field"⟩
  show r.readUintValue n = _
  unfold readUintValue
  rw [if_neg (by simp [h.err]), h.input, readUvarint_putUvarint hv]

theorem reads_intValue (v : Int64) (n : Nat) :
    Reads (fun r => r.readIntValue n) (putUvarint (zigzag v.toInt)) v.toInt := by
  intro r rest h
  have hbound : zigzag v.toInt < 2 ^ 64 := zigzag_lt (Int64.le_toInt v) (Int64.toInt_lt v)
  obtain ⟨r', hread, hready⟩ := reads_uintValue hbound n r rest h
  refine ⟨r', ?_, hready⟩
  dsimp only at hread ⊢
  rw [readIntValue, hread, Option.map_some, unzigzag_zigzag]

theorem reads_raw (hb : b.length < maxValueSize) (n : Nat) :
    Reads (fun r => r.readRaw n b.length) b b := by
  intro r rest h
  dsimp only
  unfold readRaw
  rw [if_neg (by simp [h.err])]
  by_cases hempty : b.length = 0
  · obtain rfl := List.length_eq_zero_iff.1 hempty
    exact ⟨r, rfl, h⟩
  have hlength : r.input.length = b.length + rest.length := by
    rw [h.input, List.length_append]
  have hready : { r with input := rest }.Ready rest := ⟨h.err, h.current, rfl⟩
  refine ⟨_, ?_, hready.didRead n "failed to read field"⟩
  rw [if_neg hempty]
  rw [if_neg (by omega : ¬ r.input.length < b.length), if_neg (by omega), if_pos (by omega),
    h.input, List.take_left', List.drop_left'] <;> rfl

theorem reads_counted (hb : b.length < maxValueSize) (n : Nat) :
    Reads (fun r => r.readCounted n) (counted b) b := by
  intro r rest h
  have hlimit : maxValueSize < 2 ^ 64 := by decide
  rw [counted, List.append_assoc] at h
  obtain ⟨r₁, hlength, h₁⟩ := reads_uintValue (by omega : b.length < 2 ^ 64) n r _ h
  obtain ⟨r₂, hraw, h₂⟩ := reads_raw hb n r₁ rest h₁
  refine ⟨r₂, ?_, h₂⟩
  dsimp only at hlength hraw ⊢
  rw [readCounted, hlength]
  exact hraw

section

variable (hn : 0 < n ∧ n ≤ 32)

include hn

theorem Reads.whenField {read : Reader → Option α × Reader} {v : α}
    (hread : Reads read p v) (h : r.At ((n, p) :: tokens)) :
    ∃ r', r.whenField n read = (some v, r') ∧ r'.Ready (flat tokens) := by
  obtain ⟨r₁, hfield, h₁⟩ := h.readField_of_eq hn
  obtain ⟨r₂, hvalue, h₂⟩ := hread r₁ _ h₁
  refine ⟨r₂, ?_, h₂⟩
  rw [Reader.whenField, hfield]
  exact hvalue

theorem At.readBool_eq {v : Bool} (h : r.At ((n, putUvarint (if v then 1 else 0)) :: tokens)) :
    ∃ r', r.readBool n = (some v, r') ∧ r'.Ready (flat tokens) := by
  have hbit : (if v then 1 else 0) < 2 ^ 64 := by cases v <;> decide
  apply Reads.whenField hn _ h
  intro r rest hready
  obtain ⟨r', hread, h'⟩ := reads_uintValue hbit n r rest hready
  dsimp only at hread
  refine ⟨r', ?_, h'⟩
  dsimp only
  rw [hread]
  cases v <;> rfl

end

/-- The function fails on the given bytes. -/
def Refuses {α : Type} (read : Reader → Option α × Reader) (b : List UInt8) : Prop :=
  ∀ (r : Reader) (rest : List UInt8), r.Ready (b ++ rest) →
    ∃ r', read r = (none, r') ∧ r'.err.isSome

theorem refuses_counted (hbelow : b.length < maxValueSize + 1)
    (hlarge : ¬ b.length < maxValueSize) (n : Nat) :
    Refuses (fun r => r.readCounted n) (counted b) := by
  intro r rest h
  have hlimit : 0 < maxValueSize ∧ maxValueSize < 2 ^ 64 := by decide
  rw [counted, List.append_assoc] at h
  obtain ⟨r₁, hlength, h₁⟩ := reads_uintValue (by omega : b.length < 2 ^ 64) n r _ h
  dsimp only at hlength ⊢
  rw [readCounted, hlength]
  have hinput : ¬ r₁.input.length < b.length := by
    rw [h₁.input, List.length_append]
    omega
  have hraw : r₁.readRaw n b.length =
      (none, r₁.didRead n (some "too big") "failed to read field") := by
    unfold readRaw
    rw [if_neg (by simp [h₁.err]), if_neg (by omega)]
    rw [if_neg hinput, if_pos (by omega)]
  refine ⟨_, hraw, ?_⟩
  unfold didRead
  rw [if_neg (by simp [h₁.err])]
  rfl

theorem Refuses.whenField {read : Reader → Option α × Reader}
    (hread : Refuses read p) (h : r.At ((n, p) :: tokens)) (hn : 0 < n ∧ n ≤ 32) :
    ∃ r', r.whenField n read = (none, r') ∧ r'.err.isSome := by
  obtain ⟨r₁, hfield, h₁⟩ := h.readField_of_eq hn
  obtain ⟨r₂, hvalue, h₂⟩ := hread r₁ _ h₁
  refine ⟨r₂, ?_, h₂⟩
  rw [Reader.whenField, hfield]
  exact hvalue

/-- The value has been read if the condition holds, and there is an error otherwise. -/
structure Takes (ok : Prop) (result : Option α × Reader) (v : α) (P : Reader → Prop) : Prop where
  some : ok → ∃ r', result = (some v, r') ∧ P r'
  none : ¬ ok → ∃ r', result = (none, r') ∧ r'.err.isSome

section

variable {ok : Prop} {result : Option α × Reader} {v : α} {P : Reader → Prop}

theorem Takes.of_some (hok : ok) (h : ∃ r', result = (.some v, r') ∧ P r') : Takes ok result v P :=
  ⟨fun _ => h, fun hnot => absurd hok hnot⟩

theorem Takes.map {β : Type} (h : Takes ok result v P) (f : α → β) :
    Takes ok (result.1.map f, result.2) (f v) P := by
  constructor
  · intro hok
    obtain ⟨r', rfl, h'⟩ := h.some hok
    exact ⟨r', rfl, h'⟩
  · intro hnot
    obtain ⟨r', rfl, h'⟩ := h.none hnot
    exact ⟨r', rfl, h'⟩

end

theorem takes_readBytes (hn : 0 < n ∧ n ≤ 32) (hb : b.length < maxValueSize + 1)
    (h : r.At ((n, counted b) :: tokens)) :
    Takes (b.length < maxValueSize) (r.readBytes n) b (·.Ready (flat tokens)) where
  some hsmall := (reads_counted hsmall n).whenField hn h
  none hlarge := (refuses_counted hb hlarge n).whenField h hn

theorem readBigInt_eq :
    r.readBigInt n =
      ((r.readBytes n).1.map fun b => (ofBigEndian b : Int), (r.readBytes n).2) := by
  unfold readBigInt readBytes whenField
  split <;> rfl

end Reader

variable {r : Reader}

theorem Kind.read_of_lt (kind : Kind) (h : r.At tokens) (hn : 0 < n ∧ n ≤ 32)
    (habove : Above n tokens) : ∃ r', kind.read n r = (none, r') ∧ r'.Opened tokens := by
  obtain ⟨r', hfield, h'⟩ := h.readField_of_lt hn habove
  exact ⟨r', kind.read_of_readField hfield, h'⟩

/-! ### Fields -/

/-- Reading until there is no further value gives the values that are there, or an error if one of
them is too large. -/
theorem readMany_spec {read : Reader → Option Value × Reader} {ok : Value → Prop}
    (hsome : ∀ v ∈ values, ∀ (r : Reader) (ts : Tokens), r.At ((n, payload v) :: ts) →
      Reader.Takes (ok v) (read r) v (·.Opened ts))
    (hnone : ∀ r : Reader, r.At tokens → ∃ r', read r = (none, r') ∧ r'.Opened tokens) {fuel : Nat}
    (hfuel : values.length < fuel) (h : r.At ((values.map fun v => (n, payload v)) ++ tokens)) :
    ((∀ v ∈ values, ok v) → ∃ r', readMany read fuel r = (values, r') ∧ r'.Opened tokens) ∧
      ((¬ ∀ v ∈ values, ok v) → (readMany read fuel r).2.err.isSome) := by
  obtain ⟨fuel, rfl⟩ : ∃ m, fuel = m + 1 := ⟨fuel - 1, by omega⟩
  induction values generalizing fuel r with
  | nil =>
    obtain ⟨r', hread, h'⟩ := hnone r h
    exact ⟨fun _ => ⟨r', by rw [readMany, hread], h'⟩, fun hnot => absurd nofun hnot⟩
  | cons v values ih =>
    rw [List.length_cons] at hfuel
    obtain ⟨fuel, rfl⟩ : ∃ m, fuel = m + 1 := ⟨fuel - 1, by omega⟩
    have htakes := hsome v List.mem_cons_self r _ h
    rw [List.forall_mem_cons]
    by_cases hv : ok v
    · obtain ⟨r₁, hread, h₁⟩ := htakes.some hv
      obtain ⟨hall, hlarge⟩ :=
        ih (fun u hu => hsome u (List.mem_cons_of_mem v hu)) (.opened h₁) fuel
        (by omega)
      rw [readMany, hread]
      refine ⟨fun hok => ?_, fun hnot => hlarge fun hrest => hnot ⟨hv, hrest⟩⟩
      obtain ⟨r₂, hmany, h₂⟩ := hall hok.2
      exact ⟨r₂, by dsimp only; rw [hmany], h₂⟩
    · obtain ⟨r₁, hread, h₁⟩ := htakes.none hv
      rw [readMany, hread]
      exact ⟨fun hok => absurd hok.1 hv, fun _ => h₁⟩

theorem above_tokensOf : ∀ {fields : List Field} {r : List (List Value)} {n : Nat},
    WellFormedFields n fields → Above n (tokensOf fields r)
  | [], _, _, _ | _ :: _, [], _, _ => nofun
  | .mk number repeatable kind :: fields, values :: rest, n, ⟨hlow, hhigh, _, hfields⟩ => by
      intro t ht
      rcases List.mem_append.1 ht with hfirst | hothers
      · obtain ⟨v, -, rfl⟩ := List.mem_map.1 hfirst
        exact ⟨hlow, hhigh⟩
      · obtain ⟨hlt, hle⟩ := above_tokensOf hfields t hothers
        exact ⟨Nat.lt_trans hlow hlt, hle⟩

theorem unmarshalled_eq {record : List (List Value)} (h : r.err = none) :
    unmarshalled (record, r) = .ok (.record record) := by
  unfold unmarshalled Reader.reset
  simp [h, fieldError]

theorem unmarshalled_err {result : List (List Value) × Reader} (h : result.2.err.isSome) :
    ∃ e, unmarshalled result = .error e := by
  obtain ⟨e, he⟩ := Option.isSome_iff_exists.1 h
  unfold unmarshalled Reader.reset
  simp [he, fieldError]

theorem at_new (tokens : Tokens) : (Reader.new (object tokens)).At tokens := by
  unfold object
  split
  · rename_i hempty
    subst hempty
    exact .unmarked ⟨rfl, rfl, rfl⟩ rfl
  · exact .opened (.between ⟨rfl, rfl, rfl⟩)

mutual

theorem Kind.read_spec : ∀ (kind : Kind) (n : Nat) (v : Value) (r : Reader)
    (tokens : Tokens), kind.WellFormed → kind.Shaped v → kind.Below (maxValueSize + 1) v →
      0 < n ∧ n ≤ 32 → r.At ((n, kind.payload v) :: tokens) →
        Reader.Takes (kind.Below maxValueSize v) (kind.read n r) v (·.Ready (flat tokens))
  | .hash, n, v, r, tokens, _, hv, _, hn, h => by
      cases v with
      | hash v =>
        have hv : v.length = 32 := hv
        have hraw := Reader.reads_raw (by rw [hv]; decide) n
        rw [hv] at hraw
        rw [Kind.read]
        exact (Reader.Takes.of_some trivial (hraw.whenField hn h)).map Value.hash
      | _ => exact hv.elim
  | .int, n, v, r, tokens, _, hv, _, hn, h => by
      cases v with
      | int v =>
        obtain ⟨r', hread, h'⟩ := (Reader.reads_intValue v n).whenField hn h
        refine .of_some trivial ⟨r', ?_, h'⟩
        rw [Kind.read, Reader.readInt, hread, Option.map_some, Int64.ofInt_toInt]
      | _ => exact hv.elim
  | .uint, n, v, r, tokens, _, hv, _, hn, h => by
      cases v with
      | uint v =>
        obtain ⟨r', hread, h'⟩ := (Reader.reads_uintValue v.toNat_lt n).whenField hn h
        refine .of_some trivial ⟨r', ?_, h'⟩
        rw [Kind.read, Reader.readUint, hread, Option.map_some, UInt64.ofNat_toNat]
      | _ => exact hv.elim
  | .bool, n, v, r, tokens, _, hv, _, hn, h => by
      cases v with
      | bool v =>
        rw [Kind.read]
        exact (Reader.Takes.of_some trivial (h.readBool_eq hn)).map Value.bool
      | _ => exact hv.elim
  | .bytes, n, v, r, tokens, _, hv, hbelow, hn, h => by
      cases v with
      | bytes v =>
        rw [Kind.read]
        exact (Reader.takes_readBytes hn hbelow h).map Value.bytes
      | _ => exact hv.elim
  | .string, n, v, r, tokens, _, hv, hbelow, hn, h => by
      cases v with
      | string v =>
        rw [Kind.read]
        exact (Reader.takes_readBytes hn hbelow h).map Value.string
      | _ => exact hv.elim
  | .bigInt, n, v, r, tokens, _, hv, hbelow, hn, h => by
      cases v with
      | bigInt v =>
        have hpos : 0 ≤ v := hv
        have htakes := (Reader.takes_readBytes hn hbelow h).map fun b => (ofBigEndian b : Int)
        rw [← Reader.readBigInt_eq, ofBigEndian_toBigEndian, Int.toNat_of_nonneg hpos] at htakes
        rw [Kind.read]
        exact htakes.map Value.bigInt
      | _ => exact hv.elim
  | .enum setEnumValue, n, v, r, tokens, _, hv, _, hn, h => by
      cases v with
      | enum v =>
        have hv : setEnumValue v.toNat = true := hv
        obtain ⟨r', hread, h'⟩ := (Reader.reads_uintValue v.toNat_lt n).whenField hn h
        refine .of_some trivial ⟨r', ?_, h'⟩
        rw [Kind.read, Reader.readEnum, Reader.readUint, hread]
        dsimp only
        rw [if_pos hv, Option.map_some, UInt64.ofNat_toNat]
      | _ => exact hv.elim
  | .value fields, n, v, r, tokens, hfields, hv, hbelow, hn, h => by
      cases v with
      | record record =>
        have hbytes := Reader.takes_readBytes hn hbelow.2 h
        obtain ⟨hsmall, hlarge⟩ := readFields_spec fields record _ 0 hfields hv hbelow.1
          (at_new (tokensOf fields record))
        show Reader.Takes (_ ∧ _) _ _ _
        rw [Kind.read, Reader.readValue]
        by_cases hsize : (object (tokensOf fields record)).length < maxValueSize
        · obtain ⟨r₁, hread, h₁⟩ := hbytes.some hsize
          rw [hread]
          dsimp only
          by_cases hinside : BelowFields maxValueSize fields record
          · obtain ⟨r₂, hinner, herr, -⟩ := hsmall hinside
            rw [hinner, unmarshalled_eq herr]
            exact .of_some ⟨hinside, hsize⟩ ⟨_, rfl, h₁.didRead n "failed to unmarshal value"⟩
          · -- the bytes are read, and unmarshalling them fails
            obtain ⟨e, he⟩ := unmarshalled_err (hlarge hinside)
            rw [he]
            refine ⟨fun hok => absurd hok.1 hinside, fun _ => ⟨_, rfl, ?_⟩⟩
            unfold Reader.didRead
            rw [if_neg (by simp [h₁.err])]
            rfl
        · obtain ⟨r', hread, h'⟩ := hbytes.none hsize
          rw [hread]
          exact ⟨fun hok => absurd hok.2 hsize, fun _ => ⟨r', rfl, h'⟩⟩
      | _ => exact hv.elim

theorem Field.read_spec : ∀ (f : Field) (values : List Value) (r : Reader)
    (tokens : Tokens), f.WellFormed → f.Shaped values → f.Below (maxValueSize + 1) values →
      0 < f.number ∧ f.number ≤ 32 → Above f.number tokens → r.At (f.tokens values ++ tokens) →
        (f.Below maxValueSize values → ∃ r', f.read r = (values, r') ∧ r'.Opened tokens) ∧
          (¬ f.Below maxValueSize values → (f.read r).2.err.isSome)
  | .mk number repeatable kind, values, r, tokens, hf, hvalues, hbelow, hn, habove, h => by
      have hsome : ∀ v ∈ values, ∀ (r : Reader) (ts : Tokens),
          r.At ((number, kind.payload v) :: ts) →
            Reader.Takes (kind.Below maxValueSize v) (kind.read number r) v (·.Opened ts) := by
        intro v hv r ts hat
        obtain ⟨hsmall, hlarge⟩ :=
          Kind.read_spec kind number v r ts hf (hvalues.2 v hv) (hbelow v hv) hn hat
        exact ⟨fun hok => (hsmall hok).imp fun r' => And.imp_right .between, hlarge⟩
      have hnone : ∀ r : Reader, r.At tokens →
          ∃ r', kind.read number r = (none, r') ∧ r'.Opened tokens :=
        fun r hat => kind.read_of_lt hat hn habove
      cases repeatable with
      | true =>
        have hlength := h.length_le
        rw [Field.tokens, List.length_append, List.length_map] at hlength
        exact readMany_spec hsome hnone (by omega : values.length < r.input.length + 2) h
      | false =>
        rw [Field.read, if_neg Bool.false_ne_true]
        cases values with
        | nil =>
          obtain ⟨r', hread, h'⟩ := hnone r h
          exact ⟨fun _ => ⟨r', by rw [hread]; rfl, h'⟩, fun hnot => absurd nofun hnot⟩
        | cons v values =>
          obtain rfl : values = [] := by simpa using hvalues.1
          obtain ⟨hsmall, hlarge⟩ := hsome v List.mem_cons_self r tokens h
          show ((∀ u ∈ [v], _) → _) ∧ ((¬ ∀ u ∈ [v], _) → _)
          rw [List.forall_mem_singleton]
          constructor
          · intro hok
            obtain ⟨r', hread, h'⟩ := hsmall hok
            exact ⟨r', by rw [hread]; rfl, h'⟩
          · intro hnot
            obtain ⟨r', hread, h'⟩ := hlarge hnot
            rw [hread]
            exact h'

/-- Reading the fields gives the record, or an error if a value is too large.  A reader that has not
looked at its input needs a field to be asked for, because of the marker. -/
theorem readFields_spec :
    ∀ (fields : List Field) (record : List (List Value)) (r : Reader) (n : Nat),
    WellFormedFields n fields → ShapedFields fields record →
      BelowFields (maxValueSize + 1) fields record → r.At (tokensOf fields record) →
        (BelowFields maxValueSize fields record →
          ∃ r', readFields fields r = (record, r') ∧ r'.err = none ∧
            (fields ≠ [] ∨ r.Opened (tokensOf fields record) → r'.input = [])) ∧
          (¬ BelowFields maxValueSize fields record → (readFields fields r).2.err.isSome)
  | [], [], r, _, _, _, _, h =>
    ⟨fun _ => ⟨r, rfl, h.err, fun hor => (hor.resolve_left nofun).input_nil⟩,
      fun hnot => absurd trivial hnot⟩
  | [], _ :: _, _, _, _, hr, _, _ => hr.elim
  | _ :: _, [], _, _, _, hr, _, _ => hr.elim
  | f :: fields, values :: rest, r, n, hfields, hr, hbelow, h => by
      obtain ⟨hlow, hhigh, hf, hothers⟩ := hfields
      obtain ⟨hsmall, hlarge⟩ := Field.read_spec f values r _ hf hr.1 hbelow.1 ⟨by omega, hhigh⟩
        (above_tokensOf hothers) h
      rw [readFields]
      by_cases hfirst : f.Below maxValueSize values
      · obtain ⟨r₁, hread, h₁⟩ := hsmall hfirst
        obtain ⟨hrest, hlarger⟩ := readFields_spec fields rest r₁ f.number hothers hr.2 hbelow.2
          (.opened h₁)
        rw [hread]
        refine ⟨fun hok => ?_, fun hnot => hlarger fun hok => hnot ⟨hfirst, hok⟩⟩
        obtain ⟨r₂, hrest, herr, hinput⟩ := hrest hok.2
        exact ⟨r₂, by dsimp only; rw [hrest], herr, fun _ => hinput (.inr h₁)⟩
      · exact ⟨fun hok => absurd hok.1 hfirst, fun _ => readFields_err (hlarge hfirst)⟩

end

/-! ## The round trip -/

section RoundTrip

variable {fields : List Field} {record : List (List Value)}

theorem wrote_and_read (hfields : WellFormedFields 0 fields)
    (hrecord : AdmitsFields fields record) :
    Writer.new.Wrote (writeFields fields record .new) (flat (tokensOf fields record)) ∧
      ∃ r, readFields fields (.new (object (tokensOf fields record))) = (record, r) ∧
        r.err = none ∧ (fields ≠ [] → r.input = []) := by
  obtain ⟨hshaped, hbelow⟩ := (admitsFields_iff fields record).1 hrecord
  have hbelow' := BelowFields.mono (Nat.le_succ maxValueSize) fields record hbelow
  obtain ⟨r, hread, herr, hinput⟩ := (readFields_spec fields record _ 0 hfields hshaped hbelow'
    (at_new (tokensOf fields record))).1 hbelow
  exact ⟨(writeFields_spec fields record .new 0 hfields hshaped rfl).wrote hbelow', r, hread, herr,
    fun hne => hinput (.inl hne)⟩

/-- A record that is written to an empty buffer is read from it, for a type with at least one
field. -/
theorem readFields_writeFields (hne : fields ≠ []) (hfields : WellFormedFields 0 fields)
    (hrecord : AdmitsFields fields record) (fieldNames : Option (List String)) :
    ((writeFields fields record .new).reset fieldNames).1.2.2 = none ∧
      ∃ r, readFields fields
          (.new ((writeFields fields record .new).reset fieldNames).2.buffer) = (record, r) ∧
        (r.reset fieldNames).1.2 = none ∧ r.input = [] := by
  obtain ⟨hwrote, r, hread, herr, hinput⟩ := wrote_and_read hfields hrecord
  obtain ⟨hreset, hbuffer⟩ := hwrote.reset fieldNames
  refine ⟨hreset, r, ?_, ?_, hinput hne⟩
  · rw [hbuffer]
    exact hread
  · unfold Reader.reset
    rw [herr]
    cases fieldNames <;> rfl

end RoundTrip

def sampleFields : List Field :=
  [.mk 1 true .uint, .mk 4 true .string,
    .mk 7 false (.value [.mk 2 false .bigInt, .mk 3 true .bool])]

def sampleRecord : List (List Value) :=
  [[.uint 300, .uint 7], [], [.record [[.bigInt 1000], [.bool true, .bool false]]]]

theorem admits_sampleRecord : AdmitsFields sampleFields sampleRecord := by
  refine ⟨⟨.inl rfl, ?_⟩, ⟨.inl rfl, nofun⟩, ⟨.inr (Nat.le_refl 1), ?_⟩, trivial⟩
  · exact List.forall_mem_cons.2 ⟨trivial, List.forall_mem_singleton.2 trivial⟩
  rw [List.forall_mem_singleton]
  refine ⟨⟨⟨.inr (Nat.le_refl 1), ?_⟩, ⟨.inl rfl, ?_⟩, trivial⟩, by decide +kernel⟩
  · exact List.forall_mem_singleton.2 ⟨by decide, by decide +kernel⟩
  · exact List.forall_mem_cons.2 ⟨trivial, List.forall_mem_singleton.2 trivial⟩

theorem readFields_writeFields_sample :
    ((writeFields sampleFields sampleRecord .new).reset none).1.2.2 = none ∧
      ∃ r, readFields sampleFields
          (.new ((writeFields sampleFields sampleRecord .new).reset none).2.buffer) =
            (sampleRecord, r) ∧
        (r.reset none).1.2 = none ∧ r.input = [] := by
  apply readFields_writeFields
  · exact List.cons_ne_nil _ _
  · simp [sampleFields, WellFormedFields, Field.WellFormed, Kind.WellFormed, Field.number]
  · exact admits_sampleRecord

/-- A negative big integer is an error, and the marker that is written for a type without fields
is not read. -/
theorem writeFields_unread :
    ((writeFields [.mk 1 false .bigInt] [[.bigInt (-1)]] .new).reset none).1.2.2 =
        some "negative big int values are not supported" ∧
      (readFields [] (.new ((writeFields [] [] .new).reset none).2.buffer)).2.input =
        [emptyObject] := by
  decide +kernel

/-! ## Which records come back -/

section Marshal

variable {fields : List Field} {record : List (List Value)}

theorem unmarshalled_marshalled (hfields : WellFormedFields 0 fields)
    (hrecord : AdmitsFields fields record) :
    marshalled (writeFields fields record .new) = (object (tokensOf fields record), none) ∧
      unmarshalled (readFields fields (.new (object (tokensOf fields record)))) =
        .ok (.record record) := by
  obtain ⟨hwrote, r, hread, herr, -⟩ := wrote_and_read hfields hrecord
  exact ⟨marshalled_eq hwrote, by rw [hread, unmarshalled_eq herr]⟩

theorem below_of_unmarshalled (hfields : WellFormedFields 0 fields)
    (hshaped : ShapedFields fields record) {b : List UInt8} {v : Value}
    (hwrite : marshalled (writeFields fields record .new) = (b, none))
    (hread : unmarshalled (readFields fields (.new b)) = .ok v) :
    BelowFields maxValueSize fields record := by
  obtain ⟨hwrote, hrefused⟩ := writeFields_spec fields record .new 0 hfields hshaped rfl
  have hbelow : BelowFields (maxValueSize + 1) fields record := by
    by_contra hnot
    have herr := marshalled_err (hrefused hnot)
    rw [hwrite] at herr
    exact absurd herr nofun
  rw [marshalled_eq (hwrote hbelow)] at hwrite
  obtain rfl : object (tokensOf fields record) = b := (Prod.mk.inj hwrite).1
  by_contra hnot
  obtain ⟨e, he⟩ := unmarshalled_err ((readFields_spec fields record _ 0 hfields hshaped hbelow
    (at_new (tokensOf fields record))).2 hnot)
  rw [he] at hread
  exact absurd hread nofun

end Marshal

end Accumulate.Encoding
