import Accumulate.Chain.CreateKeys
import Accumulate.Core.Globals

/-!
# The entries of key pages

A page is created by `CreateKeyBook` or `CreateKeyPage` and changed by `UpdateKeyPage` and
`UpdateKey`.  `KeyPage.Sound` is what the entries of a page are meant to be: none is empty, and
no two have the same key hash or the same delegate.

Three things go wrong.  `CreateKeyPage` accepts an entry without a key hash and drops its
delegate, so that an empty entry is left.  An update that gives an entry a delegate looks for
that delegate only if there is no entry with the new key hash.  And what looks like the URL of a
key page is looked for as the URL of its book.  In every run that avoids these the pages are
sound (`pageRun_sound`).
-/

namespace Accumulate

open Library Protocol Database

namespace Protocol
namespace KeyPage

def delegates (p : KeyPage) : List Url := p.keys.filterMap (·.delegate)

/-- No entry is empty, and no two entries have the same key hash or the same delegate. -/
structure Sound (p : KeyPage) : Prop where
  nonempty : ∀ e ∈ p.keys, e.publicKeyHash ≠ [] ∨ e.delegate ≠ none
  keys : ((p.keys.map (·.publicKeyHash)).filter (· ≠ [])).Nodup
  delegates : p.delegates.Nodup

/-- The part of soundness that is not about key hashes. -/
structure Apart (p : KeyPage) : Prop where
  nonempty : ∀ e ∈ p.keys, e.publicKeyHash ≠ [] ∨ e.delegate ≠ none
  delegates : p.delegates.Nodup

variable {p : KeyPage}

theorem DistinctKeys.nodup (hp : p.DistinctKeys) :
    ((p.keys.map (·.publicKeyHash)).filter (· ≠ [])).Nodup := by
  have hsorted : ((p.keys.map (·.publicKeyHash)).filter (· ≠ [])).Pairwise KeyOrder :=
    (List.pairwise_map.2 hp).sublist List.filter_sublist
  refine hsorted.imp_of_mem fun {a b} ha _ horder heq => ?_
  have hne : a ≠ [] := by simpa using (List.mem_filter.1 ha).2
  subst heq
  rcases horder with hlt | ⟨hnil, -⟩
  · exact lt_irrefl _ hlt
  · exact hne hnil

theorem Apart.sound (hp : p.Apart) (hkeys : p.DistinctKeys) : p.Sound :=
  ⟨hp.nonempty, hkeys.nodup, hp.delegates⟩

namespace Apart

theorem removeKeySpecAt (hp : p.Apart) (i : Nat) : (p.removeKeySpecAt i).Apart where
  nonempty e he := hp.nonempty e ((List.eraseIdx_sublist _ _).subset he)
  delegates := hp.delegates.sublist ((List.eraseIdx_sublist _ _).filterMap _)

/-- An entry that is not empty can be added if its delegate is not on the page. -/
theorem addKeySpec (hp : p.Apart) {k : KeySpec} (hne : k.publicKeyHash ≠ [] ∨ k.delegate ≠ none)
    (hnew : ∀ d, k.delegate = some d → d ∉ p.delegates) : (p.addKeySpec k).Apart := by
  obtain ⟨rest, hsub, hperm⟩ := upsert_perm p.keys (compareKeySpec k) k
  constructor
  · intro e he
    rcases List.mem_cons.1 (hperm.subset he) with rfl | hrest
    · exact hne
    · exact hp.nonempty e (hsub.subset hrest)
  · have hrest : (rest.filterMap (·.delegate)).Sublist p.delegates := hsub.filterMap _
    have hcons : ((k :: rest).filterMap (·.delegate)).Nodup := by
      cases hd : k.delegate with
      | none =>
        rw [List.filterMap_cons_none hd]
        exact hp.delegates.sublist hrest
      | some d =>
        rw [List.filterMap_cons_some hd, List.nodup_cons]
        exact ⟨fun hmem => hnew d hd (hrest.subset hmem), hp.delegates.sublist hrest⟩
    exact (hperm.filterMap _).nodup_iff.2 hcons

theorem not_mem_removeKeySpecAt (hp : p.Apart) {i : Nat} {entry : KeySpec}
    (hentry : p.keys[i]? = some entry) {d : Url} (hd : entry.delegate = some d) :
    d ∉ (p.removeKeySpecAt i).delegates := by
  obtain ⟨hi, rfl⟩ := List.getElem?_eq_some_iff.1 hentry
  have hperm := (List.getElem_cons_eraseIdx_perm hi).filterMap (·.delegate)
  have hnodup := hperm.nodup_iff.2 hp.delegates
  rw [List.filterMap_cons_some hd, List.nodup_cons] at hnodup
  exact hnodup.1

end Apart

variable {d : Url} {entry : KeySpecParams}

theorem mem_delegates : d ∈ p.delegates ↔ ∃ e ∈ p.keys, e.delegate = some d := by
  rw [delegates, List.mem_filterMap]

/-- `findKeyPageEntry` looks for the delegate itself: no entry has the key hash, and the delegate
does not look like a key page. -/
def LooksFor (p : KeyPage) (entry : KeySpecParams) (d : Url) : Prop :=
  (entry.keyHash = [] ∨ p.entryByKeyHash entry.keyHash = none) ∧
    delegateBook d.path.length d = d

theorem LooksFor.findEntry (h : p.LooksFor entry d) (hd : entry.delegate = some d) :
    p.findEntry entry = p.keys.findIdx? fun e => e.delegate = some d := by
  obtain ⟨hkey, hbook⟩ := h
  have hnone : (if entry.keyHash = [] then none else p.entryByKeyHash entry.keyHash) = none := by
    split
    · rfl
    · rename_i hne
      exact hkey.resolve_left hne
  unfold KeyPage.findEntry
  rw [hnone, hd]
  show p.entryByDelegate d = _
  rw [entryByDelegate, hbook]

theorem LooksFor.not_mem (h : p.LooksFor entry d)
    (hd : entry.delegate = some d) (hnone : p.findEntry entry = none) : d ∉ p.delegates := by
  rw [h.findEntry hd, List.findIdx?_eq_none_iff] at hnone
  rw [mem_delegates]
  rintro ⟨e, he, hed⟩
  simpa [hed] using hnone e he

end KeyPage
end Protocol

namespace Chain

open KeyPage

namespace UpdateKeyPage

/-- An operation that brings in a delegate looks for it, or no other entry has it. -/
def CarefulOperation (page : KeyPage) : KeyPageOperation → Prop
  | .add entry => ∀ d, entry.delegate = some d → page.LooksFor entry d ∨ d ∉ page.delegates
  | .update oldEntry newEntry => ∀ d, newEntry.delegate = some d →
      page.LooksFor newEntry d ∨
        ∀ i, page.findEntry oldEntry = some i → d ∉ (page.removeKeySpecAt i).delegates
  | _ => True

/-- Every operation of the list is careful on the page it is applied to. -/
def CarefulOperations (auth : AccountAuth) : KeyPage → List KeyPageOperation → Prop
  | _, [] => True
  | page, op :: rest =>
    CarefulOperation page op ∧
      ∀ page', executeOperation auth page op = .ok page' → CarefulOperations auth page' rest

end UpdateKeyPage

variable {page : KeyPage}

/-- Moving an entry leaves no empty entry and no two entries with the same delegate, if that
holds before and the delegate the entry gets is on no other entry. -/
theorem UpdateKey.relocate_apart {oldPos : Nat} {entry : KeySpec} {new : KeySpecParams}
    {preserveDelegate : Bool} (hp : page.Apart) (hentry : page.keys[oldPos]? = some entry)
    (hne : new.isEmpty = false)
    (hnew : ∀ d, new.delegate = some d → d ∉ (page.removeKeySpecAt oldPos).delegates) :
    (relocate page oldPos entry new preserveDelegate).Apart := by
  apply (hp.removeKeySpecAt oldPos).addKeySpec
  · by_cases hkey : new.keyHash = []
    · have hsome : new.delegate.isSome = true := by
        simpa [KeySpecParams.isEmpty, hkey] using hne
      right
      simp [replaceEntry, hsome, Option.isSome_iff_ne_none.1 hsome]
    · exact .inl hkey
  · intro d hd
    have hd : (if new.delegate.isSome ∨ !preserveDelegate then new.delegate
        else entry.delegate) = some d := hd
    split at hd
    · exact hnew d hd
    · exact hp.not_mem_removeKeySpecAt hentry hd

namespace UpdateKeyPage

variable {page page' : KeyPage} {auth : AccountAuth}

theorem executeOperation_apart {op : KeyPageOperation}
    (h : executeOperation auth page op = .ok page') (hcareful : CarefulOperation page op)
    (hp : page.Apart) : page'.Apart := by
  cases op with
  | add entry =>
    obtain ⟨hempty, hnone, rfl⟩ := addKey_eq_ok h
    apply hp.addKeySpec
    · simp only [KeySpecParams.isEmpty, Bool.and_eq_true, decide_eq_true_eq,
        Option.isNone_iff_eq_none] at hempty
      exact not_and_or.1 hempty
    · intro d hd
      rcases hcareful d hd with hlooks | hnot
      · exact hlooks.not_mem hd hnone
      · exact hnot
  | remove entry =>
    obtain ⟨index, threshold, rfl⟩ := removeKey_eq_ok h
    have hrest := hp.removeKeySpecAt index
    exact ⟨hrest.nonempty, hrest.delegates⟩
  | update oldEntry newEntry =>
    change UpdateKey.updateKey page auth oldEntry newEntry false = .ok page' at h
    have hempty : newEntry.isEmpty = false := by
      by_contra hempty
      rw [Bool.not_eq_false] at hempty
      rw [UpdateKey.updateKey, if_pos hempty] at h
      cases h
    obtain ⟨oldPos, entry, hold, hentry, honly, rfl⟩ := UpdateKey.updateKey_eq_ok h
    apply UpdateKey.relocate_apart hp hentry hempty
    intro d hd
    rcases hcareful d hd with hlooks | hnot
    · cases hfind : page.findEntry newEntry with
      | none =>
        intro hmem
        exact hlooks.not_mem hd hfind
          (((List.eraseIdx_sublist _ _).filterMap _).subset hmem)
      | some newPos =>
        -- the entry with the delegate is the one that is updated
        obtain rfl := honly newPos hfind
        rw [hlooks.findEntry hd, List.findIdx?_eq_some_iff_getElem] at hfind
        obtain ⟨hlt, hdelegate, -⟩ := hfind
        exact hp.not_mem_removeKeySpecAt (List.getElem?_eq_getElem hlt) (by simpa using hdelegate)
    · exact hnot oldPos hold
  | setThreshold threshold =>
    change setThreshold page threshold = .ok page' at h
    unfold setThreshold at h
    split at h
    · cases h
      exact ⟨hp.nonempty, hp.delegates⟩
    · split at h <;> cases h
  | updateAllowed allow deny =>
    obtain ⟨list, -, h⟩ := Outcome.bind_eq_ok.1 h
    obtain ⟨list', -, h⟩ := Outcome.bind_eq_ok.1 h
    cases h
    exact ⟨hp.nonempty, hp.delegates⟩

theorem executeOperations_apart {l : List KeyPageOperation}
    (h : executeOperations auth page l = .ok page') (hcareful : CarefulOperations auth page l)
    (hp : page.Apart) : page'.Apart := by
  induction l generalizing page with
  | nil =>
    cases h
    exact hp
  | cons op rest ih =>
    obtain ⟨page₁, hop, h⟩ := Outcome.bind_eq_ok.1 h
    exact ih h (hcareful.2 page₁ hop) (executeOperation_apart hop hcareful.1 hp)

theorem didUpdateKeyPage_apart (hp : page.Apart) : (didUpdateKeyPage page).Apart := by
  constructor
  · intro e he
    obtain ⟨e', he', rfl⟩ := List.mem_map.1 he
    exact hp.nonempty e' he'
  · show ((page.keys.map _).filterMap _).Nodup
    rw [List.filterMap_map]
    exact hp.delegates

theorem updatedPage_apart {d : Delivery} {st : StateManager}
    (horigin : st.origin = some (.keyPage page)) (h : updatedPage d st = .ok page')
    (hcareful : ∀ page auth operation, validate d st = .ok (page, auth, operation) →
      CarefulOperations auth page operation) (hp : page.Apart) : page'.Apart := by
  obtain ⟨⟨principal, auth, operation⟩, hvalid, h⟩ := Outcome.bind_eq_ok.1 h
  obtain ⟨page₁, hoperations, h⟩ := Outcome.bind_eq_ok.1 h
  cases h
  obtain rfl : principal = page := by
    have hsame := (validate_eq_ok hvalid).2.symm.trans horigin
    cases hsame
    rfl
  exact didUpdateKeyPage_apart
    (executeOperations_apart hoperations (hcareful _ _ _ hvalid) hp)

end UpdateKeyPage

namespace UpdateKey

theorem updatedPage_entries {c : Crypto} {d : Delivery} {st : StateManager} {page' : KeyPage}
    (horigin : st.origin = some (.keyPage page)) (h : updatedPage c d st = .ok page')
    (hkeys : page.DistinctKeys) (hp : page.Apart) : page'.DistinctKeys ∧ page'.Apart := by
  obtain ⟨⟨newKeyHash, principal, auth⟩, hvalid, h⟩ := Outcome.bind_eq_ok.1 h
  obtain ⟨old, -, h⟩ := Outcome.bind_eq_ok.1 h
  obtain ⟨-, hne, hprincipal⟩ := validate_eq_ok hvalid
  obtain rfl : principal = page := by
    have hsame := hprincipal.symm.trans horigin
    cases hsame
    rfl
  refine ⟨updateKey_distinctKeys hkeys h, ?_⟩
  obtain ⟨oldPos, entry, -, hentry, -, rfl⟩ := updateKey_eq_ok h
  apply relocate_apart hp hentry
  · simpa [KeySpecParams.isEmpty] using hne
  · intro d hd
    cases hd

end UpdateKey

/-! ## New pages -/

theorem CreateKeyBook.created_entries {d : Delivery} {st : StateManager} {book : Account}
    (h : created d st = .ok (book, page)) : page.DistinctKeys ∧ page.Apart := by
  unfold created at h
  split at h
  · cases h
  · rename_i url publicKeyHash authorities hbody
    obtain ⟨_, -, h⟩ := Outcome.bind_eq_ok.1 h
    split at h
    · cases h
    rename_i hlength
    split at h
    · cases h
    obtain ⟨auth, -, h⟩ := Outcome.bind_eq_ok.1 h
    cases h
    have hne : publicKeyHash ≠ [] := fun hnil => hlength (by rw [hnil]; rfl)
    refine ⟨List.pairwise_singleton _ _, ?_, List.nodup_nil⟩
    intro e he
    obtain rfl := List.mem_singleton.1 he
    exact .inl hne
  · cases h

namespace CreateKeyPage

variable {page : KeyPage} {keys : List KeySpecParams}

theorem addKeys_distinctKeys {uniqueKeys : List Bytes}
    (h : checkKeys uniqueKeys keys = .ok ()) (hp : page.DistinctKeys)
    (hseen : ∀ e ∈ page.keys, e.publicKeyHash ≠ [] → e.publicKeyHash ∈ uniqueKeys) :
    (addKeys page keys).DistinctKeys := by
  induction keys generalizing page uniqueKeys with
  | nil => exact hp
  | cons key rest ih =>
    have hmem : ∀ e ∈ (page.addKeySpec ⟨key.keyHash, 0, none⟩).keys,
        e = ⟨key.keyHash, 0, none⟩ ∨ e ∈ page.keys := fun e he => mem_upsert he
    unfold checkKeys at h
    split at h
    · rename_i hzero
      have hnil : key.keyHash = [] := List.length_eq_zero_iff.1 hzero
      apply ih h
      · exact hp.addKeySpec fun hne => absurd hnil hne
      intro e he hne
      rcases hmem e he with rfl | hold
      · exact absurd hnil hne
      · exact hseen e hold hne
    · split at h
      · split at h
        · cases h
        · rename_i hfresh
          apply ih h
          · apply hp.addKeySpec
            intro hne e he heq
            have hsame : e.publicKeyHash = key.keyHash := heq
            apply hfresh
            rw [← hsame]
            apply hseen e he
            rw [hsame]
            exact hne
          · intro e he hne
            rcases hmem e he with rfl | hold
            · exact List.mem_cons_self
            · exact List.mem_cons_of_mem _ (hseen e hold hne)
      · cases h

/-- A page to which only keys are added has no empty entry and no delegates. -/
theorem addKeys_apart (hkeys : ∀ key ∈ keys, key.keyHash ≠ [])
    (hp : page.Apart) : (addKeys page keys).Apart := by
  induction keys generalizing page with
  | nil => exact hp
  | cons key rest ih =>
    apply ih fun k hk => hkeys k (List.mem_cons_of_mem _ hk)
    exact hp.addKeySpec (.inl (hkeys key List.mem_cons_self)) nofun

theorem created_entries {d : Delivery} {st : StateManager} {book : Account}
    (h : created d st = .ok (book, page))
    (hkeys : ∀ keys, d.transaction.body = .payload (.createKeyPage keys) →
      ∀ key ∈ keys, key.keyHash ≠ []) : page.DistinctKeys ∧ page.Apart := by
  unfold created at h
  split at h
  · cases h
  · split at h
    · rename_i keys hbody
      split at h
      · cases h
      obtain ⟨⟨⟩, hcheck, h⟩ := Outcome.bind_eq_ok.1 h
      cases h
      constructor
      · apply addKeys_distinctKeys hcheck
        · exact List.Pairwise.nil
        · intro e he
          cases he
      · apply addKeys_apart (hkeys keys hbody)
        constructor
        · intro e he
          cases he
        · exact List.nodup_nil
    · cases h
  · cases h

end CreateKeyPage

/-! ## Runs -/

inductive PageEvent where
  | createKeyBook (d : Delivery) (st : StateManager)
  | createKeyPage (d : Delivery) (st : StateManager)
  | updateKeyPage (d : Delivery) (st : StateManager)
  | updateKey (d : Delivery) (st : StateManager)

/-- The pages that successful transactions of the given kind lead to. -/
inductive PageRun (c : Crypto) (P : PageEvent → Prop) : KeyPage → Prop where
  | createKeyBook {d : Delivery} {st : StateManager} {book : Account} {page : KeyPage}
      (h : CreateKeyBook.created d st = .ok (book, page)) (hP : P (.createKeyBook d st)) :
      PageRun c P page
  | createKeyPage {d : Delivery} {st : StateManager} {book : Account} {page : KeyPage}
      (h : CreateKeyPage.created d st = .ok (book, page)) (hP : P (.createKeyPage d st)) :
      PageRun c P page
  | updateKeyPage {d : Delivery} {st : StateManager} {page page' : KeyPage}
      (hrun : PageRun c P page) (horigin : st.origin = some (.keyPage page))
      (h : UpdateKeyPage.updatedPage d st = .ok page') (hP : P (.updateKeyPage d st)) :
      PageRun c P page'
  | updateKey {d : Delivery} {st : StateManager} {page page' : KeyPage}
      (hrun : PageRun c P page) (horigin : st.origin = some (.keyPage page))
      (h : UpdateKey.updatedPage c d st = .ok page') (hP : P (.updateKey d st)) :
      PageRun c P page'

/-- A page is not created with an entry without a key hash, and every operation that brings in a
delegate looks for it or brings one that no other entry has. -/
def PageEvent.Careful : PageEvent → Prop
  | .createKeyPage d _ => ∀ keys, d.transaction.body = .payload (.createKeyPage keys) →
      ∀ key ∈ keys, key.keyHash ≠ []
  | .updateKeyPage d st => ∀ page auth operation,
      UpdateKeyPage.validate d st = .ok (page, auth, operation) →
        UpdateKeyPage.CarefulOperations auth page operation
  | _ => True

theorem pageRun_entries {c : Crypto} (h : PageRun c PageEvent.Careful page) :
    page.DistinctKeys ∧ page.Apart := by
  induction h with
  | createKeyBook h _ => exact CreateKeyBook.created_entries h
  | createKeyPage h hcareful => exact CreateKeyPage.created_entries h hcareful
  | updateKeyPage _ horigin h hcareful ih =>
    constructor
    · obtain ⟨page, horigin', -, -, hkeys⟩ := UpdateKeyPage.updatedPage_eq_ok h
      cases horigin.symm.trans horigin'
      exact hkeys ih.1
    · exact UpdateKeyPage.updatedPage_apart horigin h hcareful ih.2
  | updateKey _ horigin h _ ih => exact UpdateKey.updatedPage_entries horigin h ih.1 ih.2

/-- In every run of careful transactions, no entry of a page is empty and no two entries have
the same key hash or the same delegate. -/
theorem pageRun_sound (c : Crypto) (page : KeyPage) (h : PageRun c PageEvent.Careful page) :
    page.Sound :=
  (pageRun_entries h).2.sound (pageRun_entries h).1

/-! ### Examples -/

def sampleKey (n : UInt8) : Bytes := List.replicate 32 n

def sampleBook : Account :=
  .keyBook ⟨.named "alice", ["book"]⟩ [⟨⟨.named "alice", ["book"]⟩, false⟩] .normal 1

def sampleTxn (principal : Url) (body : Payload) : Delivery :=
  .new ⟨⟨some principal, 0, "", []⟩, .payload body⟩ []

def sampleState (principal : Account) (body : Payload) : StateManager :=
  StateManager.new Executor.toyCrypto
    (Database.empty.setMain ⟨.named "alice", ["book"]⟩ sampleBook) (some principal) principal.url
    (sampleTxn principal.url body).transaction

def samplePage (version : Nat) (keys : List KeySpec) : KeyPage :=
  ⟨⟨.named "alice", ["book", "2"]⟩, 0, 1, version, keys, none⟩

theorem sample_created (keys : List KeySpecParams) (entries : List KeySpec)
    (P : PageEvent → Prop)
    (h : (CreateKeyPage.created (sampleTxn sampleBook.url (.createKeyPage keys))
      (sampleState sampleBook (.createKeyPage keys))).Yields fun r => r.2 = samplePage 1 entries)
    (hP : P (.createKeyPage (sampleTxn sampleBook.url (.createKeyPage keys))
      (sampleState sampleBook (.createKeyPage keys)))) :
    PageRun Executor.toyCrypto P (samplePage 1 entries) := by
  obtain ⟨⟨book, page⟩, hok, rfl⟩ := h.exists_ok
  exact .createKeyPage hok hP

theorem sample_updated (operation : List KeyPageOperation) (before after : List KeySpec)
    (P : PageEvent → Prop)
    (h : (UpdateKeyPage.updatedPage
      (sampleTxn (samplePage 1 before).url (.updateKeyPage operation))
      (sampleState (.keyPage (samplePage 1 before)) (.updateKeyPage operation))).Yields
        (· = samplePage 2 after))
    (hP : P (.updateKeyPage (sampleTxn (samplePage 1 before).url (.updateKeyPage operation))
      (sampleState (.keyPage (samplePage 1 before)) (.updateKeyPage operation))))
    (hrun : PageRun Executor.toyCrypto P (samplePage 1 before)) :
    PageRun Executor.toyCrypto P (samplePage 2 after) := by
  obtain ⟨page, hok, rfl⟩ := h.exists_ok
  exact .updateKeyPage hrun rfl hok hP

/-- A page is created with an entry for a delegate, and has an empty entry.  Another page has two
keys that get the same delegate. -/
theorem sample_unsound :
    (PageRun Executor.toyCrypto (fun _ => True) (samplePage 1 [⟨[], 0, none⟩]) ∧
      ¬ (samplePage 1 [⟨[], 0, none⟩]).Sound) ∧
    PageRun Executor.toyCrypto (fun _ => True) (samplePage 2
      [⟨sampleKey 1, 0, some ⟨.named "bob", ["book"]⟩⟩,
        ⟨sampleKey 2, 0, some ⟨.named "bob", ["book"]⟩⟩]) ∧
    ¬ (samplePage 2 [⟨sampleKey 1, 0, some ⟨.named "bob", ["book"]⟩⟩,
        ⟨sampleKey 2, 0, some ⟨.named "bob", ["book"]⟩⟩]).Sound := by
  refine ⟨⟨?_, ?_⟩, ?_, ?_⟩
  · exact sample_created [⟨[], some ⟨.named "bob", ["book"]⟩⟩] _ _ (by decide +kernel) trivial
  · intro h
    have hempty := h.nonempty ⟨[], 0, none⟩ List.mem_cons_self
    exact hempty.elim (fun hne => hne rfl) fun hne => hne rfl
  · apply sample_updated
      [.update ⟨sampleKey 1, none⟩ ⟨sampleKey 1, some ⟨.named "bob", ["book"]⟩⟩,
        .update ⟨sampleKey 2, none⟩ ⟨sampleKey 2, some ⟨.named "bob", ["book"]⟩⟩]
      [⟨sampleKey 1, 0, none⟩, ⟨sampleKey 2, 0, none⟩] _ _ (by decide +kernel) trivial
    exact sample_created [⟨sampleKey 1, none⟩, ⟨sampleKey 2, none⟩] _ _ (by decide +kernel) trivial
  · intro h
    exact absurd h.delegates (by decide)

theorem sample_sound :
    (samplePage 2 [⟨[], 0, some ⟨.named "bob", ["book"]⟩⟩, ⟨sampleKey 1, 0, none⟩,
      ⟨sampleKey 2, 0, none⟩]).Sound := by
  apply pageRun_sound Executor.toyCrypto
  apply sample_updated [.add ⟨[], some ⟨.named "bob", ["book"]⟩⟩]
    [⟨sampleKey 1, 0, none⟩, ⟨sampleKey 2, 0, none⟩] _ _ (by decide +kernel)
  · intro page auth operation hvalid
    obtain rfl : operation = [.add ⟨[], some ⟨.named "bob", ["book"]⟩⟩] := by
      have hbody := (UpdateKeyPage.validate_eq_ok hvalid).1
      cases hbody
      rfl
    refine ⟨fun d hd => .inl ⟨.inl rfl, ?_⟩, fun _ _ => trivial⟩
    cases hd
    decide +kernel
  · apply sample_created [⟨sampleKey 1, none⟩, ⟨sampleKey 2, none⟩] _ _ (by decide +kernel)
    intro keys hbody key hkey
    cases hbody
    rcases List.mem_cons.1 hkey with rfl | hkey
    · decide
    · obtain rfl := List.mem_singleton.1 hkey
      decide

end Chain
end Accumulate
