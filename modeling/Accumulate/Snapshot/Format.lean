import Accumulate.Encoding.RoundTrip
import Accumulate.Snapshot.Records

/-!
# The encoding of accounts in snapshots

`Account` and `Chain` of `internal/database/snapshot`, with the marshalling that is generated for
them.  A chain is a nested value with one byte string for each of its entries, so that the limit on
the size of a value is a limit on the number of entries.
-/

namespace Accumulate.Snapshot

open Library Protocol Record Database Database.Records Encoding

/-- `snapshot.Account`.  The hash is not encoded: whoever reads a snapshot sets it to the entry of
the account in the Patricia trie. -/
structure Account where
  url : Url
  hash : Hash
  main : Option Protocol.Account
  chains : List Chain
  pending : List TxID
  directory : List Url

/-- The encodings of other packages: the main state, and the strings of URLs and of transaction
IDs. -/
structure Format where
  marshalMain : Protocol.Account → Except String Bytes
  unmarshalMain : Bytes → Except String Protocol.Account
  urlString : Url → Bytes
  parseUrl : Bytes → Except String Url
  txidString : TxID → Bytes
  parseTxID : Bytes → Except String TxID

/-- What is written of the account can be read. -/
structure Format.Reads (f : Format) (a : Account) : Prop where
  main : ∀ m b, a.main = some m → f.marshalMain m = .ok b → f.unmarshalMain b = .ok m
  url : f.parseUrl (f.urlString a.url) = .ok a.url
  directory : ∀ u ∈ a.directory, f.parseUrl (f.urlString u) = .ok u
  pending : ∀ t ∈ a.pending, f.parseTxID (f.txidString t) = .ok t

/-! ## Strings and hashes -/

def stringBytes (s : String) : Bytes := s.toUTF8.data.toList

def stringOf (b : Bytes) : Except String String :=
  match String.fromUTF8? ⟨b.toArray⟩ with
  | some s => .ok s
  | none => .error "invalid UTF-8"

def hashBytes (h : Hash) : Bytes :=
  List.replicate (32 - (toBigEndian h.toNat).length) 0 ++ toBigEndian h.toNat

def hashOfBytes (b : Bytes) : Hash := BitVec.ofNat 256 (ofBigEndian b)

def entryHash (entry : Bytes) : Except String Hash :=
  if entry = [] then .error "attempted to add a nil entry to a chain"
  else if entry.length > 32 then .error "Entry is too big"
  else if entry.length < 32 then
    .ok (hashOfBytes (entry ++ 32 :: List.replicate (31 - entry.length) 0))
  else .ok (hashOfBytes entry)

theorem stringOf_stringBytes (s : String) : stringOf (stringBytes s) = .ok s := by
  have hread : String.fromUTF8? s.toUTF8 = some s := dif_pos s.isValidUTF8
  unfold stringOf stringBytes
  rw [hread]

theorem length_toBigEndian (h : Hash) : (toBigEndian h.toNat).length ≤ 32 := by
  rw [toBigEndian, List.length_reverse, List.length_map,
    Nat.digits_length_le_iff (by decide)]
  exact h.isLt

@[simp] theorem length_hashBytes (h : Hash) : (hashBytes h).length = 32 := by
  have hle := length_toBigEndian h
  rw [hashBytes, List.length_append, List.length_replicate]
  omega

theorem hashBytes_ne_nil (h : Hash) : hashBytes h ≠ [] := by
  intro hnil
  have hlength := length_hashBytes h
  rw [hnil] at hlength
  cases hlength

theorem ofBigEndian_zeros (n : Nat) (b : Bytes) :
    ofBigEndian (List.replicate n 0 ++ b) = ofBigEndian b := by
  rw [ofBigEndian, ofBigEndian, List.reverse_append, List.map_append, List.reverse_replicate,
    List.map_replicate]
  exact Nat.ofDigits_append_replicate_zero _

theorem hashOfBytes_hashBytes (h : Hash) : hashOfBytes (hashBytes h) = h := by
  rw [hashOfBytes, hashBytes, ofBigEndian_zeros, ofBigEndian_toBigEndian, BitVec.ofNat_toNat,
    BitVec.setWidth_eq]

theorem entryHash_hashBytes (h : Hash) : entryHash (hashBytes h) = .ok h := by
  unfold entryHash
  rw [if_neg (hashBytes_ne_nil h), length_hashBytes, if_neg (by decide), if_neg (by decide),
    hashOfBytes_hashBytes]

/-! ## Chains -/

/-- The values of `ChainType`. -/
def isChainType (n : Nat) : Bool := n = 0 || n = 1 || n = 2 || n = 4

def chainTypeNumber : ChainType → UInt64
  | .transaction => 1
  | .anchor => 2
  | .index => 4

/-- The type with the given number.  No chain has an unknown type. -/
def chainTypeOf (n : UInt64) : Except String ChainType :=
  if n = 1 then .ok .transaction
  else if n = 2 then .ok .anchor
  else if n = 4 then .ok .index
  else .error "unknown chain type"

def chainFields : List Encoding.Field :=
  [.mk 1 false .string, .mk 2 false (.enum isChainType), .mk 3 false .uint, .mk 4 true .bytes,
    .mk 5 true .bytes]

/-- The fields of a chain that are set. -/
def Chain.record (c : Chain) : List (List Value) :=
  [if c.name = "" then [] else [.string (stringBytes c.name)],
    [.enum (chainTypeNumber c.type)],
    if c.count = 0 then [] else [.uint (UInt64.ofNat c.count)],
    c.pending.map fun h => .bytes (h.elim [] hashBytes),
    c.entries.map fun h => .bytes (hashBytes h)]

def pendingOf : Value → Except String (Option Hash)
  | .bytes [] => .ok none
  | .bytes b => .ok (some (hashOfBytes b))
  | _ => .error "not bytes"

/-- An entry that is read, as `AddEntry` takes it. -/
def entryOfValue : Value → Except String Hash
  | .bytes b => entryHash b
  | _ => .error "not bytes"

def nameOf : List Value → Except String String
  | [.string b] => stringOf b
  | _ => .ok ""

def typeOf : List Value → Except String ChainType
  | [.enum n] => chainTypeOf n
  | _ => .error "unknown chain type"

def countOf : List Value → Nat
  | [.uint n] => n.toNat
  | _ => 0

def chainOfRecord : Value → Except String Chain
  | .record [name, type, count, pending, entries] => do
      let name ← nameOf name
      let type ← typeOf type
      let pending ← pending.mapM pendingOf
      let entries ← entries.mapM entryOfValue
      return ⟨name, type, countOf count, pending, entries⟩
  | _ => .error "not a chain"

theorem mapM_map {α β : Type} {f : α → β} {g : β → Except String α} {l : List α}
    (h : ∀ a ∈ l, g (f a) = .ok a) : (l.map f).mapM g = .ok l := by
  induction l with
  | nil => rfl
  | cons a l ih =>
    obtain ⟨ha, hl⟩ := List.forall_mem_cons.1 h
    rw [List.map_cons, List.mapM_cons, ha, ih hl]
    rfl

theorem chainTypeOf_number (t : ChainType) : chainTypeOf (chainTypeNumber t) = .ok t := by
  cases t <;> rfl

theorem nameOf_record (name : String) :
    nameOf (if name = "" then [] else [.string (stringBytes name)]) = .ok name := by
  split
  · rename_i hempty
    rw [hempty]
    rfl
  · exact stringOf_stringBytes name

theorem countOf_record {n : Nat} (hn : n < 2 ^ 64) :
    countOf (if n = 0 then [] else [.uint (UInt64.ofNat n)]) = n := by
  split
  · rename_i hzero
    rw [hzero]
    rfl
  · exact Nat.mod_eq_of_lt hn

theorem pendingOf_bytes (h : Option Hash) : pendingOf (.bytes (h.elim [] hashBytes)) = .ok h := by
  cases h with
  | none => rfl
  | some h =>
    show pendingOf (.bytes (hashBytes h)) = _
    unfold pendingOf
    split
    · rename_i heq
      exact absurd (Value.bytes.inj heq) (hashBytes_ne_nil h)
    · rename_i b _ heq
      rw [← Value.bytes.inj heq, hashOfBytes_hashBytes]
    · rename_i hnot
      exact absurd rfl (hnot _)

theorem chainOfRecord_record (c : Chain) (hcount : c.count < 2 ^ 64) :
    chainOfRecord (.record c.record) = .ok c := by
  have hentries : (c.entries.map fun h => Value.bytes (hashBytes h)).mapM entryOfValue =
      .ok c.entries := mapM_map fun h _ => entryHash_hashBytes h
  unfold Chain.record chainOfRecord
  simp only [nameOf_record, typeOf, chainTypeOf_number, mapM_map fun h _ => pendingOf_bytes h,
    hentries, countOf_record hcount]
  rfl

/-! ## Accounts -/

/-- The fields of `snapshot.Account` after the main state. -/
def otherFields : List Encoding.Field :=
  [.mk 2 true (.value chainFields), .mk 3 true .string, .mk 4 true .string, .mk 5 false .string]

/-- The fields of `snapshot.Account`, with the main state as it is marshalled. -/
def accountFields : List Encoding.Field := .mk 1 false .bytes :: otherFields

section Account

variable (f : Format)

def Account.others (a : Account) : List (List Value) :=
  [a.chains.map fun c => .record c.record,
    a.pending.map fun t => .string (f.txidString t),
    a.directory.map fun u => .string (f.urlString u),
    [.string (f.urlString a.url)]]

def marshalledMain (m : Protocol.Account) : Bytes × Option String :=
  match f.marshalMain m with
  | .ok b => (b, none)
  | .error e => ([], some e)

def Account.marshalBinary (a : Account) : Except String Bytes :=
  let writer : Writer :=
    match a.main with
    | none => .new
    | some m => Writer.new.writeValue 1 (marshalledMain f m)
  match marshalled (writeFields otherFields (a.others f) writer) with
  | (b, none) => .ok b
  | (_, some e) => .error e

def mainOf : List Value → Except String (Option Protocol.Account)
  | [] => .ok none
  | [.bytes b] => (f.unmarshalMain b).map some
  | _ => .error "not a main state"

def txidOf : Value → Except String TxID
  | .string b => f.parseTxID b
  | _ => .error "not a transaction ID"

def urlOf : Value → Except String Url
  | .string b => f.parseUrl b
  | _ => .error "not a URL"

/-- The account with the given fields.  Its hash has to be set. -/
def accountOfRecord : Value → Except String Account
  | .record [main, chains, pending, directory, [url]] => do
      let main ← mainOf f main
      let chains ← chains.mapM chainOfRecord
      let pending ← pending.mapM (txidOf f)
      let directory ← directory.mapM (urlOf f)
      let url ← urlOf f url
      return ⟨url, 0, main, chains, pending, directory⟩
  | _ => .error "not an account"

/-- `Account.UnmarshalBinary`.  The reader keeps the first error of a value it cannot parse; here
the values are parsed when all fields have been read. -/
def unmarshalAccount (b : Bytes) : Except String Account := do
  let record ← unmarshalled (readFields accountFields (.new b))
  accountOfRecord f record

end Account

/-! ## Sizes -/

/-- The size of the encoding of a chain with its history: each entry takes its 32 bytes, their
number and the number of the field. -/
def historySize (name : String) (entries : Nat) : Nat :=
  (counted (stringBytes name)).length + 3 + 34 * entries

/-- The parts of the account are below the limit on the size of a value. -/
structure Account.Fits (f : Format) (a : Account) : Prop where
  main : ∀ m, a.main = some m → ∃ b, f.marshalMain m = .ok b ∧ b.length < maxValueSize
  chains : ∀ c ∈ a.chains, historySize c.name c.entries.length < maxValueSize
  pending : ∀ t ∈ a.pending, (f.txidString t).length < maxValueSize
  directory : ∀ u ∈ a.directory, (f.urlString u).length < maxValueSize
  url : (f.urlString a.url).length < maxValueSize

/-- The chain is collected with its history. -/
structure Chain.IsHistory (c : Chain) : Prop where
  name : c.name ≠ ""
  count : c.count = 0
  pending : c.pending = []

theorem length_putUvarint {v : Nat} (hv : v < 128) : (putUvarint v).length = 1 := by
  rw [putUvarint_of_lt hv]
  rfl

theorem flat_entries (entries : List Hash) :
    (flat (entries.map fun h => (5, counted (hashBytes h)))).length =
      34 * entries.length := by
  induction entries with
  | nil => rfl
  | cons h entries ih =>
    have hnumber : (putUvarint 5).length = 1 := length_putUvarint (by decide)
    have hcounted : (counted (hashBytes h)).length = 33 := by
      rw [counted, List.length_append, length_hashBytes,
        length_putUvarint (by decide)]
    rw [List.map_cons, flat_cons, List.length_append, List.length_append, hcounted,
      hnumber, List.length_cons]
    omega

theorem length_object_chain {c : Chain} (h : c.IsHistory) :
    (object (tokensOf chainFields c.record)).length =
      historySize c.name c.entries.length := by
  have htokens : tokensOf chainFields c.record =
      (1, counted (stringBytes c.name)) :: (2, putUvarint (chainTypeNumber c.type).toNat) ::
        c.entries.map fun h => (5, counted (hashBytes h)) := by
    unfold Chain.record
    rw [h.count, h.pending, if_neg h.name]
    show _ :: _ :: (List.map _ (List.map _ c.entries) ++ []) = _
    rw [List.append_nil, List.map_map]
    rfl
  have htype : (putUvarint (chainTypeNumber c.type).toNat).length = 1 := by
    cases c.type <;> exact length_putUvarint (by decide)
  have hfirst : (putUvarint 1).length = 1 := length_putUvarint (by decide)
  have hsecond : (putUvarint 2).length = 1 := length_putUvarint (by decide)
  rw [htokens, object, if_neg (List.cons_ne_nil _ _), flat_cons,
    flat_cons]
  simp only [List.length_append, flat_entries, historySize]
  omega

/-! ## Which accounts come back -/

section RoundTrip

variable {f : Format} {a : Account} {c : Chain} {main : List Value}

theorem wellFormed_accountFields : WellFormedFields 0 accountFields := by
  simp [accountFields, otherFields, chainFields, WellFormedFields,
    Field.WellFormed, Kind.WellFormed, Field.number]

theorem shaped_optional {n : Nat} {kind : Kind} {p : Prop} [Decidable p] {v : Value}
    (hv : kind.Shaped v) : (Encoding.Field.mk n false kind).Shaped (if p then [] else [v]) := by
  split
  · exact ⟨.inr (Nat.zero_le 1), List.forall_mem_nil _⟩
  · exact ⟨.inr (Nat.le_refl 1), List.forall_mem_singleton.2 hv⟩

theorem shaped_chain (c : Chain) : ShapedFields chainFields c.record := by
  have htype : isChainType (chainTypeNumber c.type).toNat = true := by cases c.type <;> rfl
  exact ⟨shaped_optional trivial, ⟨.inr (Nat.le_refl 1), List.forall_mem_singleton.2 htype⟩,
    shaped_optional trivial, ⟨.inl rfl, List.forall_mem_map.2 fun _ _ => trivial⟩,
    ⟨.inl rfl, List.forall_mem_map.2 fun _ _ => trivial⟩, trivial⟩

theorem below_chain_iff (h : c.IsHistory) :
    (Kind.value chainFields).Below maxValueSize (.record c.record) ↔
      historySize c.name c.entries.length < maxValueSize := by
  show BelowFields maxValueSize chainFields c.record ∧ _ ↔ _
  rw [length_object_chain h]
  refine and_iff_right_of_imp fun hsize => ?_
  have hname : (stringBytes c.name).length < maxValueSize := by
    rw [historySize, counted, List.length_append] at hsize
    omega
  have hhash : 32 < maxValueSize := by decide
  unfold Chain.record
  rw [h.count, h.pending, if_neg h.name]
  refine ⟨?_, ?_, List.forall_mem_nil _, List.forall_mem_nil _, ?_, trivial⟩
  · exact List.forall_mem_singleton.2 hname
  · exact List.forall_mem_singleton.2 trivial
  refine List.forall_mem_map.2 fun hash _ => ?_
  show (hashBytes hash).length < _
  rw [length_hashBytes]
  exact hhash

theorem below_account_iff (hchains : ∀ c ∈ a.chains, c.IsHistory) :
    BelowFields maxValueSize accountFields (main :: a.others f) ↔
      (∀ v ∈ main, Kind.bytes.Below maxValueSize v) ∧
      (∀ c ∈ a.chains, historySize c.name c.entries.length < maxValueSize) ∧
      (∀ t ∈ a.pending, (f.txidString t).length < maxValueSize) ∧
      (∀ u ∈ a.directory, (f.urlString u).length < maxValueSize) ∧
      (f.urlString a.url).length < maxValueSize := by
  have hvalues : (∀ c ∈ a.chains, (Kind.value chainFields).Below maxValueSize
      (.record c.record)) ↔
        ∀ c ∈ a.chains, historySize c.name c.entries.length < maxValueSize :=
    forall₂_congr fun c hc => below_chain_iff (hchains c hc)
  rw [← hvalues]
  simp only [accountFields, otherFields, Account.others, BelowFields, Field.Below,
    List.forall_mem_map, List.forall_mem_singleton, and_true]
  rfl

/-- The main state as it is written. -/
def mainValues (bytes : Option Bytes) : List Value := (bytes.map .bytes).toList

variable {bytes : Option Bytes}

theorem shaped_account : ShapedFields accountFields (mainValues bytes :: a.others f) := by
  refine ⟨?_, ⟨.inl rfl, List.forall_mem_map.2 fun c _ => shaped_chain c⟩,
    ⟨.inl rfl, List.forall_mem_map.2 fun _ _ => trivial⟩,
    ⟨.inl rfl, List.forall_mem_map.2 fun _ _ => trivial⟩,
    ⟨.inr (Nat.le_refl 1), List.forall_mem_singleton.2 trivial⟩, trivial⟩
  cases bytes with
  | none => exact ⟨.inr (Nat.zero_le 1), nofun⟩
  | some b => exact ⟨.inr (Nat.le_refl 1), List.forall_mem_singleton.2 trivial⟩

section

variable (hmain : a.main.map (f.marshalMain ·) = bytes.map .ok)

include hmain

theorem main_cases : (a.main = none ∧ bytes = none) ∨
    ∃ m b, a.main = some m ∧ bytes = some b ∧ f.marshalMain m = .ok b := by
  cases hm : a.main with
  | none =>
    rw [hm] at hmain
    exact .inl ⟨rfl, Option.map_eq_none_iff.1 hmain.symm⟩
  | some m =>
    rw [hm] at hmain
    obtain ⟨b, hb, hok⟩ := Option.map_eq_some_iff.1 hmain.symm
    exact .inr ⟨m, b, rfl, hb, hok.symm⟩

theorem marshalBinary_eq_ok {b : Bytes} :
    a.marshalBinary f = .ok b ↔
      marshalled (writeFields accountFields (mainValues bytes :: a.others f) .new) = (b, none) := by
  have hwriter : a.marshalBinary f =
      match marshalled (writeFields accountFields (mainValues bytes :: a.others f) .new) with
      | (b, none) => .ok b
      | (_, some e) => .error e := by
    unfold Account.marshalBinary
    rcases main_cases hmain with ⟨hm, rfl⟩ | ⟨m, b, hm, rfl, hok⟩
    · rw [hm]
      rfl
    · rw [hm]
      simp only [marshalledMain, hok]
      rfl
  rw [hwriter]
  rcases marshalled _ with ⟨b', _ | e⟩ <;> simp

theorem accountOfRecord_record (hf : f.Reads a) (hchains : ∀ c ∈ a.chains, c.IsHistory) :
    accountOfRecord f (.record (mainValues bytes :: a.others f)) = .ok { a with hash := 0 } := by
  have hread : mainOf f (mainValues bytes) = .ok a.main := by
    rcases main_cases hmain with ⟨hm, rfl⟩ | ⟨m, b, hm, rfl, hok⟩
    · rw [hm]
      rfl
    · show (f.unmarshalMain b).map some = _
      rw [hf.main m b hm hok, hm]
      rfl
  have hcs : (a.chains.map fun c => Value.record c.record).mapM chainOfRecord = .ok a.chains :=
    mapM_map fun c hc => chainOfRecord_record c (by rw [(hchains c hc).count]; decide)
  have hpending : (a.pending.map fun t => Value.string (f.txidString t)).mapM (txidOf f) =
      .ok a.pending := mapM_map hf.pending
  have hdirectory : (a.directory.map fun u => Value.string (f.urlString u)).mapM (urlOf f) =
      .ok a.directory := mapM_map hf.directory
  unfold accountOfRecord Account.others
  simp only [hread, hcs, hpending, hdirectory]
  show (do let url ← f.parseUrl (f.urlString a.url); _ : Except String Account) = _
  rw [hf.url]
  rfl

theorem fits_iff (hchains : ∀ c ∈ a.chains, c.IsHistory) :
    a.Fits f ↔ BelowFields maxValueSize accountFields (mainValues bytes :: a.others f) := by
  have hsize : (∀ m, a.main = some m →
      ∃ b, f.marshalMain m = .ok b ∧ b.length < maxValueSize) ↔
        ∀ v ∈ mainValues bytes, Kind.bytes.Below maxValueSize v := by
    rcases main_cases hmain with ⟨hm, rfl⟩ | ⟨m, b, hm, rfl, hok⟩
    · rw [hm]
      exact iff_of_true nofun nofun
    · show _ ↔ ∀ v ∈ [Value.bytes b], _
      simp only [hm, Option.some.injEq, forall_eq', hok, Except.ok.injEq, exists_eq_left',
        List.forall_mem_singleton]
      rfl
  rw [below_account_iff hchains, ← hsize]
  exact ⟨fun h => ⟨h.main, h.chains, h.pending, h.directory, h.url⟩,
    fun ⟨h₁, h₂, h₃, h₄, h₅⟩ => ⟨h₁, h₂, h₃, h₄, h₅⟩⟩

end

/-- An account with the history of its chains is marshalled and unmarshalled if and only if all its
parts are below the limit, and is the same then. -/
theorem unmarshal_marshal_iff (hf : f.Reads a) (hchains : ∀ c ∈ a.chains, c.IsHistory)
    (a' : Account) :
    (∃ b, a.marshalBinary f = .ok b ∧ unmarshalAccount f b = .ok a') ↔
      a.Fits f ∧ a' = { a with hash := 0 } := by
  by_cases hbytes : ∃ bytes : Option Bytes, a.main.map (f.marshalMain ·) = bytes.map .ok
  · obtain ⟨bytes, hmain⟩ := hbytes
    simp only [fits_iff hmain hchains, marshalBinary_eq_ok hmain]
    constructor
    · rintro ⟨b, hmarshal, hread⟩
      obtain ⟨v, hv, haccount⟩ : ∃ v,
          unmarshalled (readFields accountFields (.new b)) = .ok v ∧
            accountOfRecord f v = .ok a' := by
        unfold unmarshalAccount at hread
        cases hv : unmarshalled (readFields accountFields (.new b)) with
        | error e =>
          rw [hv] at hread
          exact absurd hread nofun
        | ok v =>
          rw [hv] at hread
          exact ⟨v, rfl, hread⟩
      have hsizes := below_of_unmarshalled wellFormed_accountFields shaped_account hmarshal hv
      have hadmits := (admitsFields_iff _ _).2 ⟨shaped_account, hsizes⟩
      obtain ⟨hwritten, hunmarshal⟩ :=
        unmarshalled_marshalled wellFormed_accountFields hadmits
      obtain rfl : _ = b := (Prod.mk.inj (hwritten.symm.trans hmarshal)).1
      obtain rfl : _ = v := Except.ok.inj (hunmarshal.symm.trans hv)
      rw [accountOfRecord_record hmain hf hchains] at haccount
      exact ⟨hsizes, (Except.ok.inj haccount).symm⟩
    · rintro ⟨hsizes, rfl⟩
      have hadmits := (admitsFields_iff _ _).2 ⟨shaped_account, hsizes⟩
      obtain ⟨hwritten, hunmarshal⟩ :=
        unmarshalled_marshalled wellFormed_accountFields hadmits
      refine ⟨_, hwritten, ?_⟩
      show (unmarshalled _ >>= accountOfRecord f) = _
      rw [hunmarshal]
      exact accountOfRecord_record hmain hf hchains
  · -- the main state cannot be marshalled
    have hfails : ∃ m e, a.main = some m ∧ f.marshalMain m = .error e := by
      cases hm : a.main with
      | none => exact absurd ⟨none, by rw [hm]; rfl⟩ hbytes
      | some m =>
        cases hok : f.marshalMain m with
        | ok b => exact absurd ⟨some b, by rw [hm, Option.map_some, hok]; rfl⟩ hbytes
        | error e => exact ⟨m, e, rfl, hok⟩
    obtain ⟨m, e, hm, he⟩ := hfails
    refine iff_of_false ?_ ?_
    · rintro ⟨b, hwrite, -⟩
      have herr := Writer.writeValue_err (w := .new) (n := 1)
        (m := marshalledMain f m) rfl (by simp [marshalledMain, he])
      have hfields : (writeFields otherFields (a.others f)
          (Writer.new.writeValue 1 (marshalledMain f m))).err.isSome :=
        writeFields_err herr
      have hmarshal := marshalled_err hfields
      unfold Account.marshalBinary at hwrite
      simp only [hm] at hwrite
      split at hwrite
      · rename_i heq
        rw [heq] at hmarshal
        exact absurd hmarshal nofun
      · exact absurd hwrite nofun
    · rintro ⟨hfits, -⟩
      obtain ⟨b, hb, -⟩ := hfits.main m hm
      rw [he] at hb
      exact absurd hb nofun

theorem marshalBinary_ne_ok (hmain : a.main.map (f.marshalMain ·) = bytes.map .ok)
    (hc : c ∈ a.chains) (hhistory : c.IsHistory)
    (hlarge : maxValueSize < historySize c.name c.entries.length) (b : Bytes) :
    a.marshalBinary f ≠ .ok b := by
  have hnot : ¬ BelowFields (maxValueSize + 1) accountFields
      (mainValues bytes :: a.others f) := by
    rintro ⟨-, hchains, -⟩
    have hsize : (object (tokensOf chainFields c.record)).length <
        maxValueSize + 1 := (hchains (.record c.record) (List.mem_map.2 ⟨c, hc, rfl⟩)).2
    rw [length_object_chain hhistory] at hsize
    omega
  intro hok
  have herr := marshalled_err ((writeFields_spec accountFields _ .new 0
    wellFormed_accountFields shaped_account rfl).refused hnot)
  rw [(marshalBinary_eq_ok hmain).1 hok] at herr
  exact absurd herr nofun

end RoundTrip

end Accumulate.Snapshot
