import Mathlib.Data.Char
import Mathlib.Data.List.Infix
import Mathlib.Data.Nat.Digits.Defs
import Accumulate.Library.Search

/-!
# Account URLs

The URLs of `pkg/url` and the URL conventions of `protocol/protocol.go`.

A URL is kept in the form the database and the comparison functions see: letter
case is folded, the path is a list of its components, and the host is split by
the one question the protocol asks of it, namely which partition it belongs to.
The URLs of the model have no user info, port, query and fragment, and their paths
are clean: no component is empty, `.` or `..`.
-/

namespace Accumulate.Protocol

/-- The authority component, read as `ParsePartitionUrl` reads it.  `named` is
any authority that is neither `dn.acme` nor of the form `bvn-<id>.acme`. -/
inductive Host where
  | directory
  | bvn (id : String)
  | named (authority : String)
deriving DecidableEq, Repr

/-- `url.URL`, up to letter case. -/
structure Url where
  host : Host
  path : List String
deriving DecidableEq, Repr

namespace Url

def rootIdentity (u : Url) : Url := { u with path := [] }

def localTo (u v : Url) : Bool := u.rootIdentity = v.rootIdentity

def parent (u : Url) : Option Url :=
  if u.path = [] then none else some { u with path := u.path.dropLast }

/-- `URL.Identity`: the parent, or the URL itself when it has no path. -/
def identity (u : Url) : Url := u.parent.getD u

def parentOf (u v : Url) : Bool := v.parent = some u

/-- `URL.PrefixOf`: some proper ancestor of `v` equals `u`. -/
def prefixOf (u v : Url) : Bool :=
  u.host = v.host ∧ u.path <+: v.path ∧ u.path ≠ v.path

def joinPath (u : Url) (path : List String) : Url := { u with path := u.path ++ path }

@[simp] theorem localTo_iff (u v : Url) : u.localTo v = true ↔ u.host = v.host := by
  simp [localTo, rootIdentity]

end Url

/-! ## Partitions -/

/-- The partition name of the directory network, `protocol.Directory`. -/
def directory : String := "directory"

def dnUrl : Url := ⟨.directory, []⟩

def acmeUrl : Url := ⟨.named "acme", []⟩

def partitionUrl (partition : String) : Url :=
  if partition = directory then dnUrl else ⟨.bvn partition, []⟩

def parsePartitionUrl (u : Url) : Option String :=
  match u.host with
  | .directory => some directory
  | .bvn id => some id
  | .named _ => none

def isDnUrl (u : Url) : Bool := u.rootIdentity = dnUrl

/-- `ParseLiteDataAddress` finds a data account ID: 32 bytes in hexadecimal, without a path. -/
def isLiteDataAddress (u : Url) : Bool :=
  match u.host with
  | .named s =>
    u.path = [] && s.length = 64 && s.toList.all fun c => c.isDigit || ('a' ≤ c && c ≤ 'f')
  | _ => false

theorem parsePartitionUrl_of_lite {u : Url} (h : isLiteDataAddress u = true) :
    parsePartitionUrl u = none := by
  unfold isLiteDataAddress at h
  unfold parsePartitionUrl
  cases hhost : u.host with
  | named s => rfl
  | directory | bvn id => simp [hhost] at h

/-- `IsUnknown`: the authority is `unknown` or `unknown.acme`. -/
def isUnknown (u : Url) : Bool :=
  u.host = .named "unknown" || u.host = .named "unknown.acme"

/-! ## Key pages -/

/-- The value of a string of decimal digits, as `strconv.ParseUint(s, 10, 16)`
reads it: no sign, at least one digit, and a value below `2 ^ 16`. -/
def parseUint16 (s : String) : Option Nat :=
  let digits := s.toList
  let value := Nat.ofDigitChars 10 digits 0
  if digits ≠ [] ∧ digits.all Char.isDigit ∧ value < 2 ^ 16 then some value else none

/-- `ParseKeyPageUrl`: the key book a key page belongs to, and the page number. -/
def parseKeyPageUrl (keyPage : Url) : Option (Url × Nat) :=
  match keyPage.path.getLast? with
  | none => none
  | some last => (parseUint16 last).map fun index => (keyPage.identity, index)

/-! ## The string form -/

def accountUrlMaxLength : Nat := 500

/-- `url.PathEscape` of one path component, in lower case: unreserved characters
stand for themselves, every byte of any other character becomes `%xx`. -/
def pathEscape (component : String) : List Char :=
  component.toList.flatMap fun c =>
    if c.isAlphanum || c ∈ ['-', '_', '.', '~', '$', '&', '+', '=', ':', '@'] then [c]
    else (String.utf8EncodeChar c).flatMap fun b =>
      ['%', Nat.digitChar (b.toNat / 16), Nat.digitChar (b.toNat % 16)]

def Host.toChars : Host → List Char
  | .directory => "dn.acme".toList
  | .bvn id => "bvn-".toList ++ id.toList ++ ".acme".toList
  | .named s => s.toList

/-- `URL.String`, in lower case. -/
def Url.toChars (u : Url) : List Char :=
  "acc://".toList ++ u.host.toChars ++ u.path.flatMap fun c => '/' :: pathEscape c

/-- `len(u.String())`, in bytes. -/
def Url.stringLength (u : Url) : Nat := (u.toChars.map Char.utf8Size).sum

/-- `URL.Compare`: the order of the lower case strings. -/
def Url.compare (u v : Url) : Ordering := Ord.compare u.toChars v.toChars

/-- The string of `v` continues that of `u` by a path. -/
def Url.Below (u v : Url) : Prop := u.toChars ++ ['/'] <+: v.toChars

instance (u v : Url) : Decidable (u.Below v) := inferInstanceAs (Decidable (_ <+: _))

theorem Url.compare_eq (u v : Url) :
    u.compare v = @Ord.compare _ List.instLinearOrder.toOrd u.toChars v.toChars :=
  Library.compare_list_eq_compare _ _

theorem Url.below_of_parentOf {u v : Url} (h : u.parentOf v = true) : u.Below v := by
  have hparent : v.parent = some u := by simpa [Url.parentOf] using h
  unfold Url.parent at hparent
  split at hparent
  · cases hparent
  rename_i hpath
  cases hparent
  refine ⟨pathEscape (v.path.getLast hpath), ?_⟩
  have hlast := List.dropLast_concat_getLast hpath
  conv_rhs => rw [Url.toChars, ← hlast]
  simp [Url.toChars]

theorem Url.Below.le {u v : Url} (h : u.Below v) : u.toChars ≤ v.toChars :=
  not_lt.1 (List.IsPrefix.le ((List.prefix_append u.toChars ['/']).trans h))

theorem Url.Below.between {u a b c : Url} (ha : u.Below a) (hc : u.Below c)
    (hab : a.toChars ≤ b.toChars) (hbc : b.toChars ≤ c.toChars) : u.Below b := by
  obtain ⟨r, hr⟩ := ha
  obtain ⟨s, hs⟩ := hc
  rw [← hr] at hab
  rw [← hs] at hbc
  obtain ⟨t, ht⟩ := Library.exists_append_of_le_of_le hab hbc
  exact ⟨t, ht.symm⟩

/-- `IsValidAccountPath`.  An empty component is an adjacent path separator;
`isWord` is Go's test for a letter, number, mark, dash or connector. -/
def isValidAccountPath (isWord : Char → Bool) (path : List String) : Bool :=
  path.all fun component =>
    component ≠ "" &&
      component.toList.all fun c =>
        isWord c || c ∈ [' ', '.', ':', '+', '~', '|']

end Accumulate.Protocol
