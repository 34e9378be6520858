import Accumulate.Protocol.Crypto

/-!
# Accounts, signers and statuses

The main states of accounts, the signers among them, the network definition that
acts as a signer for validators, and transaction statuses.
-/

namespace Accumulate.Protocol

open Library

/-! ## Key pages -/

structure KeySpec where
  publicKeyHash : Bytes
  lastUsedOn : Nat
  delegate : Option Url
deriving DecidableEq, Repr

/-- `KeyPage`.  The reject, response and block thresholds are never read. -/
structure KeyPage where
  url : Url
  creditBalance : Nat
  acceptThreshold : Nat
  version : Nat
  keys : List KeySpec
  transactionBlacklist : Option Nat
deriving DecidableEq, Repr

namespace KeyPage

/-- `EntryByKeyHash`: the position of the entry with the given key hash. -/
def entryByKeyHash (p : KeyPage) (keyHash : Bytes) : Option Nat :=
  let cmp := fun ks : KeySpec => compare ks.publicKeyHash keyHash
  if found p.keys cmp then some (search p.keys cmp) else none

/-- The recursion of `EntryByDelegate`: a key page stands for its book, and the
URL of the book is looked at in the same way.  Each round drops a path component. -/
def delegateBook : Nat → Url → Url
  | 0, owner => owner
  | fuel + 1, owner =>
    match parseKeyPageUrl owner with
    | some (book, _) => delegateBook fuel book
    | none => owner

/-- `EntryByDelegate`: the position of the first entry with the given delegate. -/
def entryByDelegate (p : KeyPage) (owner : Url) : Option Nat :=
  p.keys.findIdx? fun entry => entry.delegate = some (delegateBook owner.path.length owner)

/-- The comparison of `AddKeySpec`: by key hash, entries without a delegate
first, then by delegate. -/
def compareKeySpec (k l : KeySpec) : Ordering :=
  match compare l.publicKeyHash k.publicKeyHash with
  | .eq =>
    match l.delegate, k.delegate with
    | none, _ => .lt
    | some _, none => .gt
    | some d, some d' => d.compare d'
  | v => v

def addKeySpec (p : KeyPage) (k : KeySpec) : KeyPage :=
  { p with keys := (upsert p.keys (compareKeySpec k) k).1 }

def removeKeySpecAt (p : KeyPage) (i : Nat) : KeyPage := { p with keys := p.keys.eraseIdx i }

def getSignatureThreshold (p : KeyPage) : Nat :=
  if p.acceptThreshold = 0 then 1 else p.acceptThreshold

end KeyPage

/-! ## Accounts -/

structure AuthorityEntry where
  url : Url
  disabled : Bool
deriving DecidableEq, Repr

/-- `AccountAuth`: the authority set, kept in URL order. -/
abbrev AccountAuth := List AuthorityEntry

def AccountAuth.authDisabled (a : AccountAuth) : Bool := a.any (·.disabled)

def AccountAuth.hasAuthority (a : AccountAuth) (entry : Url) : Bool :=
  found a fun e => e.url.compare entry

inductive BookType where
  | normal
  | validator
  | operator
deriving DecidableEq, Repr

/-- The anchor kept in the system ledger until it is sent. -/
inductive AnchorBody where
  | directory (anchor : PartitionAnchor) (updates : List NetworkAccountUpdate)
      (receipts : List PartitionAnchorReceipt) (makeMajorBlock : Nat)
  | partition (anchor : PartitionAnchor) (acmeBurnt : Int)

structure SystemLedger where
  url : Url
  index : Nat
  acmeBurnt : Int
  pendingUpdates : List NetworkAccountUpdate
  anchor : Option AnchorBody

structure AnchorLedger where
  url : Url
  majorBlockIndex : Nat
  pendingMajorBlockAnchors : List Url
  exchange : List TransactionExchangeLedger
deriving DecidableEq, Repr

structure SyntheticLedger where
  url : Url
  exchange : List TransactionExchangeLedger
deriving DecidableEq, Repr

inductive Account where
  | adi (url : Url) (auth : AccountAuth)
  | liteIdentity (url : Url) (creditBalance lastUsedOn : Nat)
  | liteTokenAccount (url tokenUrl : Url) (balance : Int) (lockHeight : Nat)
  | tokenAccount (url : Url) (auth : AccountAuth) (tokenUrl : Url) (balance : Int)
  | tokenIssuer (url : Url) (auth : AccountAuth) (symbol : String) (precision : Nat)
      (issued : Int) (supplyLimit : Option Int)
  | dataAccount (url : Url) (auth : AccountAuth) (entry : Option DataEntry)
  | liteDataAccount (url : Url)
  | keyBook (url : Url) (auth : AccountAuth) (bookType : BookType) (pageCount : Nat)
  | keyPage (page : KeyPage)
  | unknownSigner (url : Url) (version : Nat)
  | systemLedger (ledger : SystemLedger)
  | anchorLedger (ledger : AnchorLedger)
  | syntheticLedger (ledger : SyntheticLedger)

namespace Account

def url : Account → Url
  | .adi u _ => u
  | .liteIdentity u _ _ => u
  | .liteTokenAccount u _ _ _ => u
  | .tokenAccount u _ _ _ => u
  | .tokenIssuer u _ _ _ _ _ => u
  | .dataAccount u _ _ => u
  | .liteDataAccount u => u
  | .keyBook u _ _ _ => u
  | .keyPage p => p.url
  | .unknownSigner u _ => u
  | .systemLedger l => l.url
  | .anchorLedger l => l.url
  | .syntheticLedger l => l.url

def fullAuth : Account → Option AccountAuth
  | .adi _ a => some a
  | .tokenAccount _ a _ _ => some a
  | .tokenIssuer _ a _ _ _ _ => some a
  | .dataAccount _ a _ => some a
  | .keyBook _ a _ _ => some a
  | _ => none

def isSigner : Account → Bool
  | .liteIdentity .. | .keyPage .. | .unknownSigner .. => true
  | _ => false

end Account

/-! ## The network definition -/

structure ValidatorInfo where
  publicKeyHash : Bytes
  partitions : List (String × Bool)
deriving DecidableEq, Repr

/-- `NetworkDefinition`.  The list of partitions is not read by the executor. -/
structure NetworkDefinition where
  version : Nat
  validators : List ValidatorInfo
deriving DecidableEq, Repr

def ValidatorInfo.isActiveOn (v : ValidatorInfo) (partition : String) : Bool :=
  match v.partitions.find? (·.1 = partition) with
  | some p => p.2
  | none => false

/-- `NetworkDefinition.ValidatorByHash`, restricted to active validators as in
`globalSigner.EntryByKeyHash`. -/
def NetworkDefinition.activeValidator (n : NetworkDefinition) (partition : String)
    (keyHash : Bytes) : Option Nat :=
  let cmp := fun v : ValidatorInfo => compare v.publicKeyHash keyHash
  match n.validators[search n.validators cmp]? with
  | some v => if cmp v = .eq ∧ v.isActiveOn partition then some (search n.validators cmp) else none
  | none => none

/-! ## Signers -/

/-- `Signer2`: an account that can sign, or the network acting for the
validators of a partition. -/
inductive Signer where
  | account (a : Account)
  | network (partition : String) (definition : NetworkDefinition)

namespace Signer

/-- The URL of the signer of validator signatures, `dn.acme/network`. -/
def networkUrl : Url := dnUrl.joinPath ["network"]

def url : Signer → Url
  | .account a => a.url
  | .network _ _ => networkUrl

def version : Signer → Nat
  | .account (.keyPage p) => p.version
  | .account (.unknownSigner _ v) => v
  | .account _ => 1
  | .network _ n => n.version

/-- `GetSignatureThreshold`; the threshold of an unknown signer is the maximal
64-bit number. -/
def signatureThreshold : Signer → Nat
  | .account (.keyPage p) => p.getSignatureThreshold
  | .account (.unknownSigner ..) => 2 ^ 64 - 1
  | .account _ => 1
  | .network _ _ => 1

def entryByKeyHash (c : Crypto) (keyHash : Bytes) : Signer → Option Nat
  | .account (.keyPage p) => p.entryByKeyHash keyHash
  | .account (.liteIdentity u _ _) => if c.liteIdentityHasKey u keyHash then some 0 else none
  | .account _ => none
  | .network partition n => n.activeValidator partition keyHash

/-- `EntryByDelegate`.  The network has none but still answers with index zero. -/
def entryByDelegate (owner : Url) : Signer → Option Nat
  | .account (.keyPage p) => p.entryByDelegate owner
  | _ => none

/-- `MakeLiteSigner`: key pages keep only their delegates. -/
def makeLite : Signer → Account
  | .account (.keyPage p) => .keyPage
      { p with
        creditBalance := 0
        keys := (p.keys.filter (·.delegate.isSome)).map fun k => ⟨[], 0, k.delegate⟩ }
  | .account a => a
  | .network _ n => .unknownSigner networkUrl n.version

end Signer

/-! ## Statuses -/

structure TransactionStatus where
  txID : Option TxID
  code : Status
  error : Option Error
  result : Option TransactionResult
  received : Nat
  initiator : Option Url
  signers : List Account
  anchorSigners : List Bytes
  sourceNetwork : Option Url
  destinationNetwork : Option Url
  sequenceNumber : Nat
  gotDirectoryReceipt : Bool
  proof : Option Receipt

namespace TransactionStatus

def new : TransactionStatus :=
  { txID := none, code := .unset, error := none, result := none, received := 0
    initiator := none, signers := [], anchorSigners := [], sourceNetwork := none
    destinationNetwork := none, sequenceNumber := 0, gotDirectoryReceipt := false
    proof := none }

def failed (s : TransactionStatus) : Bool := !s.code.success

/-- `Delivered`: executed, successfully or not. -/
def delivered (s : TransactionStatus) : Bool := s.code = .delivered || s.failed

def pending (s : TransactionStatus) : Bool := s.code = .pending

/-- `Set`: record an error and its code. -/
def set (s : TransactionStatus) (e : Error) : TransactionStatus :=
  { s with
    error := some e.wrap
    code := if e.code = .unset then .unknownError else e.code }

def addAnchorSigner (s : TransactionStatus) (publicKey : Bytes) : TransactionStatus :=
  { s with anchorSigners := (upsert s.anchorSigners (fun k => compare k publicKey) publicKey).1 }

/-- `AddSigner`: the list is ordered by URL; a known signer is replaced by a
newer version only. -/
def addSigner (s : TransactionStatus) (signer : Signer) : TransactionStatus :=
  let cmp := fun a : Account => a.url.compare signer.url
  match s.signers[search s.signers cmp]? with
  | some old =>
    if cmp old = .eq ∧ signer.version ≤ (Signer.account old).version then s
    else { s with signers := (upsert s.signers cmp signer.makeLite).1 }
  | none => { s with signers := (upsert s.signers cmp signer.makeLite).1 }

def getSigner (s : TransactionStatus) (entry : Url) : Option Account :=
  let cmp := fun a : Account => a.url.compare entry
  if found s.signers cmp then s.signers[search s.signers cmp]? else none

/-- `FindSigners`: the signer with the URL of the authority, or the run of
signers that are its children. -/
def findSigners (s : TransactionStatus) (authority : Url) : List Account :=
  let cmp := fun a : Account => a.url.compare authority
  let i := search s.signers cmp
  match s.signers[i]? with
  | none => []
  | some a =>
    if cmp a = .eq then [a]
    else if authority.parentOf a.url then
      let j := leastIndex s.signers.length fun k =>
        match s.signers[k]? with
        | some b => cmp b ≠ .lt && !authority.parentOf b.url
        | none => true
      (s.signers.take j).drop i
    else []

/-! ### The order of the signers -/

/-- The signers are ordered by the strings of their URLs, without repetition. -/
def SignersSorted (s : TransactionStatus) : Prop :=
  s.signers.Pairwise fun a b => a.url.toChars < b.url.toChars

theorem signersSorted_new : TransactionStatus.new.SignersSorted := List.Pairwise.nil

theorem url_makeLite (signer : Signer) : signer.makeLite.url = signer.url := by
  cases signer with
  | account a => cases a <;> rfl
  | network partition n => rfl

theorem compare_signer (u : Url) :
    (fun a : Account => a.url.compare u) = fun a : Account =>
      @compare _ List.instLinearOrder.toOrd a.url.toChars u.toChars :=
  funext fun _ => Url.compare_eq _ _

variable {s : TransactionStatus}

theorem SignersSorted.addSigner (h : s.SignersSorted) (signer : Signer) :
    (s.addSigner signer).SignersSorted := by
  have hupsert : (upsert s.signers (fun a : Account => a.url.compare signer.url)
      signer.makeLite).1.Pairwise fun a b => a.url.toChars < b.url.toChars := by
    rw [compare_signer]
    apply pairwise_upsert h
    rw [url_makeLite]
  unfold TransactionStatus.addSigner
  dsimp only
  split
  · split
    · exact h
    · exact hupsert
  · exact hupsert

/-- The first signer that does not come before the authority. -/
def firstFrom (s : TransactionStatus) (authority : Url) : Nat :=
  search s.signers fun a => a.url.compare authority

variable {k : Nat} {a b : Account}

theorem SignersSorted.le_iff (h : s.SignersSorted) {m : Nat} (ha : s.signers[k]? = some a)
    (hb : s.signers[m]? = some b) : a.url.toChars ≤ b.url.toChars ↔ k ≤ m := by
  obtain ⟨hk, rfl⟩ := List.getElem?_eq_some_iff.1 ha
  obtain ⟨hm, rfl⟩ := List.getElem?_eq_some_iff.1 hb
  have hpair := List.pairwise_iff_getElem.1 h
  constructor
  · intro hle
    by_contra hlt
    exact absurd hle (hpair m k hm hk (by omega)).not_ge
  · intro hkm
    rcases Nat.eq_or_lt_of_le hkm with rfl | hlt
    · exact le_refl _
    · exact (hpair k m hk hm hlt).le

theorem SignersSorted.firstFrom_le_iff (h : s.SignersSorted) (authority : Url)
    (ha : s.signers[k]? = some a) :
    s.firstFrom authority ≤ k ↔ authority.toChars ≤ a.url.toChars := by
  have hweak : s.signers.Pairwise fun a b => a.url.toChars ≤ b.url.toChars := h.imp fun h => h.le
  obtain ⟨hbefore, hfrom⟩ := search_spec hweak
  rw [← compare_signer] at hbefore hfrom
  constructor
  · intro hle
    exact hfrom k a hle ha
  · intro hle
    by_contra hlt
    exact absurd hle (hbefore k a (by unfold firstFrom at hlt; omega) ha).not_ge

/-- The test of the second search of `FindSigners`. -/
def isPast (authority : Url) (b : Account) : Bool :=
  b.url.compare authority ≠ .lt && !authority.parentOf b.url

theorem isPast_iff {authority : Url} :
    isPast authority b = true ↔
      authority.toChars ≤ b.url.toChars ∧ authority.parentOf b.url = false := by
  have hcompare : b.url.compare authority ≠ .lt ↔ authority.toChars ≤ b.url.toChars := by
    rw [Url.compare_eq, ne_eq, compare_lt_iff_lt, not_lt]
  unfold isPast
  rw [← hcompare]
  simp

/-- The signers an authority has: the one with its URL or, if there is none, its children. -/
def signersOf (s : TransactionStatus) (authority : Url) : List Account :=
  let same := s.signers.filter fun a => a.url.compare authority = .eq
  if same.isEmpty then s.signers.filter fun a => authority.parentOf a.url else same

def HasSigner (s : TransactionStatus) (authority : Url) : Prop :=
  ∃ a ∈ s.signers, a.url.compare authority = .eq

/-- No other signer is sorted between the authority and one of its children. -/
def ChildrenFirst (s : TransactionStatus) (authority : Url) : Prop :=
  ∀ a ∈ s.signers, ∀ b ∈ s.signers, authority.toChars ≤ a.url.toChars →
    a.url.toChars ≤ b.url.toChars → authority.parentOf b.url = true →
    authority.parentOf a.url = true

section FindSigners

variable {s : TransactionStatus} {authority : Url}

theorem signersOf_of_not_hasSigner (h : ¬ s.HasSigner authority) :
    s.signersOf authority = s.signers.filter fun a => authority.parentOf a.url := by
  have hempty : (s.signers.filter fun a => a.url.compare authority = .eq).isEmpty = true := by
    rw [List.isEmpty_iff, List.filter_eq_nil_iff]
    intro a ha heq
    exact h ⟨a, ha, by simpa using heq⟩
  unfold signersOf
  rw [if_pos hempty]

variable {a : Account}

theorem SignersSorted.getElem?_firstFrom (hsorted : s.SignersSorted) (ha : a ∈ s.signers)
    (heq : a.url.compare authority = .eq) : s.signers[s.firstFrom authority]? = some a := by
  rw [Url.compare_eq, compare_eq_iff_eq] at heq
  obtain ⟨m, hm, rfl⟩ := List.getElem_of_mem ha
  have hget := List.getElem?_eq_getElem hm
  have hle := (hsorted.firstFrom_le_iff authority hget).2 heq.ge
  have hfirst := List.getElem?_eq_getElem (Nat.lt_of_le_of_lt hle hm)
  have hge := (hsorted.firstFrom_le_iff authority hfirst).1 (Nat.le_refl _)
  rw [← heq, hsorted.le_iff hget hfirst] at hge
  rw [Nat.le_antisymm hle hge]
  exact hget

theorem findSigners_of_hasSigner (hsorted : s.SignersSorted) (h : s.HasSigner authority) :
    s.findSigners authority = s.signersOf authority := by
  obtain ⟨a, ha, heq⟩ := h
  have hget := hsorted.getElem?_firstFrom ha heq
  have hfind : s.findSigners authority = [a] := by
    unfold findSigners
    dsimp only
    rw [show s.signers[search s.signers fun a => a.url.compare authority]? = some a from hget]
    exact if_pos heq
  have hfilter : (s.signers.filter fun a => a.url.compare authority = .eq) =
      (s.signers.take (s.firstFrom authority + 1)).drop (s.firstFrom authority) := by
    -- every signer with the URL of the authority has the same index
    have hindex : ∀ k b, s.signers[k]? = some b →
        (decide (b.url.compare authority = .eq) = true ↔ k = s.firstFrom authority) := by
      intro k b hb
      rw [decide_eq_true_eq]
      constructor
      · intro hb'
        have hsame := hsorted.getElem?_firstFrom (List.mem_of_getElem? hb) hb'
        have hle := (hsorted.le_iff hb hsame).1 (le_refl _)
        have hge := (hsorted.le_iff hsame hb).1 (le_refl _)
        omega
      · rintro rfl
        rw [hget] at hb
        cases hb
        exact heq
    apply filter_eq_slice (by omega)
    · intro k b hk hb
      exact Bool.eq_false_iff.2 fun ht => absurd ((hindex k b hb).1 ht) (by omega)
    · intro k b hk hk' hb
      exact (hindex k b hb).2 (by omega)
    · intro k b hk hb
      exact Bool.eq_false_iff.2 fun ht => absurd ((hindex k b hb).1 ht) (by omega)
  have hone : (s.signers.take (s.firstFrom authority + 1)).drop (s.firstFrom authority) = [a] := by
    rw [List.drop_take, Nat.add_sub_cancel_left, List.take_one, List.head?_drop, hget]
    rfl
  unfold signersOf
  rw [hfind, hfilter, hone]
  rfl

theorem findSigners_of_not_hasSigner (h : ¬ s.HasSigner authority) :
    s.findSigners authority =
      match s.signers[s.firstFrom authority]? with
      | none => []
      | some a =>
        if authority.parentOf a.url then
          (s.signers.take (firstIndex s.signers (isPast authority))).drop
            (s.firstFrom authority)
        else [] := by
  show (match s.signers[s.firstFrom authority]? with
    | none => []
    | some a => _) = _
  split
  · rfl
  · rename_i a ha
    rw [if_neg fun heq => h ⟨a, List.mem_of_getElem? ha, heq⟩]
    unfold firstIndex isPast
    congr! 5 with _ k
    cases s.signers[k]? <;> rfl

section

variable (hsorted : s.SignersSorted)

include hsorted

theorem SignersSorted.firstFrom_le_of_parentOf (hb : s.signers[k]? = some b)
    (hchild : authority.parentOf b.url = true) : s.firstFrom authority ≤ k :=
  (hsorted.firstFrom_le_iff authority hb).2 (Url.below_of_parentOf hchild).le

/-- If no other signer is sorted between the authority and its children, the test of the second
search is monotone. -/
theorem ChildrenFirst.isPast_mono (h : s.ChildrenFirst authority) :
    s.signers.Pairwise fun a b => isPast authority a = true → isPast authority b = true := by
  refine hsorted.imp_of_mem fun {a b} ha hb hlt hpast => ?_
  rw [isPast_iff] at hpast ⊢
  refine ⟨hpast.1.trans hlt.le, Bool.eq_false_iff.2 fun hchild => ?_⟩
  exact Bool.eq_false_iff.1 hpast.2 (h a ha b hb hpast.1 hlt.le hchild)

theorem ChildrenFirst.findSigners (h : s.ChildrenFirst authority) (hnot : ¬ s.HasSigner authority) :
    s.findSigners authority = s.signers.filter fun a => authority.parentOf a.url := by
  rw [findSigners_of_not_hasSigner hnot]
  split
  · rename_i hnone
    symm
    refine List.filter_eq_nil_iff.2 fun b hb hchild => ?_
    obtain ⟨k, hk, rfl⟩ := List.getElem_of_mem hb
    have hle := hsorted.firstFrom_le_of_parentOf (List.getElem?_eq_getElem hk) hchild
    have hlen := List.getElem?_eq_none_iff.1 hnone
    omega
  · rename_i first hfirst
    have hge := (hsorted.firstFrom_le_iff authority hfirst).1 (Nat.le_refl _)
    split
    · obtain ⟨hbelow, habove⟩ := firstIndex_spec (h.isPast_mono hsorted)
      symm
      apply filter_eq_slice
      · by_contra hlt
        have hlen : firstIndex s.signers (isPast authority) < s.signers.length :=
          Nat.lt_of_lt_of_le (Nat.lt_of_not_le hlt) (search_le _ _)
        have hget := List.getElem?_eq_getElem hlen
        have hpast := isPast_iff.1 (habove _ _ (Nat.le_refl _) hget)
        exact hlt ((hsorted.firstFrom_le_iff authority hget).2 hpast.1)
      · intro k b hk hb
        exact Bool.eq_false_iff.2 fun hchild =>
          absurd (hsorted.firstFrom_le_of_parentOf hb hchild) (by omega)
      · intro k b hle hlt hb
        have htest := Bool.eq_false_iff.1 (hbelow k b hlt hb)
        by_contra hchild
        exact htest (isPast_iff.2 ⟨(hsorted.firstFrom_le_iff authority hb).1 hle,
          by simpa using hchild⟩)
      · intro k b hle hb
        exact (isPast_iff.1 (habove k b hle hb)).2
    · rename_i hother
      symm
      refine List.filter_eq_nil_iff.2 fun b hb hchild => ?_
      obtain ⟨k, hk, rfl⟩ := List.getElem_of_mem hb
      have hgetk := List.getElem?_eq_getElem hk
      have hle := (hsorted.le_iff hfirst hgetk).2 (hsorted.firstFrom_le_of_parentOf hgetk hchild)
      exact hother (h _ (List.mem_of_getElem? hfirst) _ hb hge hle hchild)

/-- If `FindSigners` returns the children, they are a run that starts at the authority. -/
theorem childrenFirst_of_findSigners (hnot : ¬ s.HasSigner authority)
    (hfind : s.findSigners authority = s.signers.filter fun a => authority.parentOf a.url) :
    s.ChildrenFirst authority := by
  intro a ha b hb hle hab hchild
  obtain ⟨k, hk, rfl⟩ := List.getElem_of_mem ha
  obtain ⟨m, hm, rfl⟩ := List.getElem_of_mem hb
  have hgetk := List.getElem?_eq_getElem hk
  have hgetm := List.getElem?_eq_getElem hm
  have hkm := (hsorted.le_iff hgetk hgetm).1 hab
  have hik := (hsorted.firstFrom_le_iff authority hgetk).2 hle
  have hmem : s.signers[m] ∈ s.findSigners authority := by
    rw [hfind]
    exact List.mem_filter.2 ⟨hb, hchild⟩
  rw [findSigners_of_not_hasSigner hnot] at hfind hmem
  split at hfind
  · rename_i hnone
    rw [hnone] at hmem
    cases hmem
  · rename_i first hfirst
    rw [hfirst] at hmem
    dsimp only at hmem
    split at hmem
    · rename_i hparent
      rw [if_pos hparent] at hfind
      -- the run ends after the child, so it contains what is before the child
      obtain ⟨n, hn, heq⟩ := List.mem_drop_iff_getElem.1 hmem
      rw [List.getElem_take] at heq
      rw [List.length_take] at hn
      have hlen : s.firstFrom authority + n < s.signers.length := by omega
      have hsame := (hsorted.le_iff hgetm (List.getElem?_eq_getElem hlen)).1 (by rw [heq])
      have hrun : s.signers[k] ∈
          (s.signers.take (firstIndex s.signers (isPast authority))).drop
            (s.firstFrom authority) := by
        refine List.mem_drop_iff_getElem.2 ⟨k - s.firstFrom authority, ?_, ?_⟩
        · omega
        · rw [List.getElem_take]
          congr 1
          omega
      rw [hfind] at hrun
      exact (List.mem_filter.1 hrun).2
    · cases hmem

/-- `FindSigners` returns the signers of the authority exactly if the authority is a signer or
no other signer is sorted between it and its children. -/
theorem SignersSorted.findSigners_eq_iff :
    s.findSigners authority = s.signersOf authority ↔
      s.HasSigner authority ∨ s.ChildrenFirst authority := by
  by_cases hhas : s.HasSigner authority
  · exact iff_of_true (findSigners_of_hasSigner hsorted hhas) (.inl hhas)
  rw [signersOf_of_not_hasSigner hhas]
  constructor
  · intro hfind
    exact .inr (childrenFirst_of_findSigners hsorted hhas hfind)
  · rintro (hsame | hfirst)
    · exact absurd hsame hhas
    · exact hfirst.findSigners hsorted hhas

end

theorem mem_signersOf (ha : a ∈ s.signersOf authority) :
    a ∈ s.signers ∧ (a.url.compare authority = .eq ∨ authority.parentOf a.url = true) := by
  unfold signersOf at ha
  dsimp only at ha
  split at ha
  · exact ⟨(List.mem_filter.1 ha).1, .inr (List.mem_filter.1 ha).2⟩
  · exact ⟨(List.mem_filter.1 ha).1, .inl (by simpa using (List.mem_filter.1 ha).2)⟩

/-- Between two children of the authority there are only URLs below it.  So the children come
first if the first signer that does not come before the authority is one and all signers below
the authority are its children. -/
theorem childrenFirst_of_below (hsorted : s.SignersSorted)
    (hchildren : ∀ a ∈ s.signers, authority.Below a.url → authority.parentOf a.url = true)
    {first : Account} (hfirst : s.signers[s.firstFrom authority]? = some first)
    (hparent : authority.parentOf first.url = true) : s.ChildrenFirst authority := by
  intro a ha b hb hle hab hchild
  obtain ⟨k, hk, rfl⟩ := List.getElem_of_mem ha
  have hget := List.getElem?_eq_getElem hk
  have hlow := (hsorted.le_iff hfirst hget).2 ((hsorted.firstFrom_le_iff authority hget).2 hle)
  exact hchildren _ ha
    ((Url.below_of_parentOf hparent).between (Url.below_of_parentOf hchild) hlow hab)

theorem findSigners_sound (hsorted : s.SignersSorted)
    (hchildren : ∀ a ∈ s.signers, authority.Below a.url → authority.parentOf a.url = true)
    (ha : a ∈ s.findSigners authority) :
    a ∈ s.signers ∧ (a.url.compare authority = .eq ∨ authority.parentOf a.url = true) := by
  by_cases hhas : s.HasSigner authority
  · rw [findSigners_of_hasSigner hsorted hhas] at ha
    exact mem_signersOf ha
  have hmem := ha
  rw [findSigners_of_not_hasSigner hhas] at ha
  split at ha
  · cases ha
  rename_i first hfirst
  split at ha
  · rename_i hparent
    have htogether := childrenFirst_of_below hsorted hchildren hfirst hparent
    rw [hsorted.findSigners_eq_iff.2 (.inr htogether)] at hmem
    exact mem_signersOf hmem
  · cases ha

end FindSigners

theorem SignersSorted.addSigners (calls : List Signer) (h : s.SignersSorted) :
    (calls.foldl TransactionStatus.addSigner s).SignersSorted := by
  induction calls generalizing s with
  | nil => exact h
  | cons signer calls ih => exact ih (h.addSigner signer)

/-- `FindSigners` on the signers added by any sequence of `AddSigner` calls. -/
theorem findSigners_addSigners_iff (calls : List Signer) (authority : Url) :
    (calls.foldl addSigner new).findSigners authority =
        (calls.foldl addSigner new).signersOf authority ↔
      (calls.foldl addSigner new).HasSigner authority ∨
        (calls.foldl addSigner new).ChildrenFirst authority :=
  (signersSorted_new.addSigners calls).findSigners_eq_iff

/-- A page of the book `book` and a page of the book `book-2` have signed. -/
def siblingSigners : TransactionStatus :=
  [Signer.account (.unknownSigner ⟨.named "alice", ["book", "1"]⟩ 1),
    Signer.account (.unknownSigner ⟨.named "alice", ["book-2", "1"]⟩ 1)].foldl addSigner new

/-- The page of `book-2` is sorted between the book `book` and its page, because the dash comes
before the slash, and hides the page. -/
theorem findSigners_sibling :
    (siblingSigners.signersOf ⟨.named "alice", ["book"]⟩).map Account.url =
        [⟨.named "alice", ["book", "1"]⟩] ∧
      (siblingSigners.findSigners ⟨.named "alice", ["book"]⟩).map Account.url = [] := by
  decide +kernel

theorem code_ne_delivered (h : s.failed = true) : s.code ≠ .delivered := by
  intro hcode
  rw [failed, hcode] at h
  cases h

theorem set_failed {e : Error} (h : e.code.success = false) : (s.set e).failed = true := by
  unfold failed set
  split
  · rfl
  · simp [h]

end TransactionStatus

end Accumulate.Protocol
