import Mathlib.Data.List.Dedup
import Accumulate.Chain.Envelope
import Accumulate.Core.Globals

/-!
# The deliveries of an envelope

`NormalizeEnvelope` hands every signature of an envelope to one delivery.  It finds the delivery
in a map by the hash of the transaction; if several transactions have one hash, the map holds the
last of them and the others get nothing.  In the end a delivery without signatures is an error, so
where the function succeeds no two transactions have the same hash.

`normalizeEnvelope_deliveries` says which signatures each delivery has.
-/

namespace Accumulate.Chain

open Library Protocol Accumulate.Core

variable (c : Crypto) {deliveries : List Delivery}

def deliveryHashes (deliveries : List Delivery) : List Hash :=
  deliveries.map fun d => c.getHash d.transaction

def signaturesFor (assigned : List (Signature × Hash)) (hash : Hash) : List Signature :=
  (assigned.filter fun a => a.2 = hash).map Prod.fst

/-- The last delivery with a hash has the signatures that have been assigned to the hash, and the
others have none. -/
def Shares (assigned : List (Signature × Hash)) : List Delivery → Prop
  | [] => True
  | d :: rest =>
    d.signatures = (if c.getHash d.transaction ∈ deliveryHashes c rest then []
      else signaturesFor assigned (c.getHash d.transaction)) ∧ Shares assigned rest

/-- The transaction a signature goes to: its own, or the envelope's, or the only one there is in the
envelope and before the signature. -/
def GoesTo (envTxHash : Option Hash) (transactions : List Transaction) (before : List Hash)
    (sig : Signature) (target : Hash) : Prop :=
  ∃ own, sig.getTransactionHash = .ok own ∧
    if own ≠ 0 then target = own
    else
      match envTxHash with
      | some h => target = h
      | none =>
        target ∈ transactions.map c.getHash ++ before ∧
          ∀ h ∈ transactions.map c.getHash ++ before, h = target

/-- The state of the loop over the signatures: what the deliveries are, after signatures have been
assigned to transactions. -/
structure Attached (transactions : List Transaction) (assigned : List (Signature × Hash))
    (deliveries : List Delivery) : Prop where
  shares : Shares c assigned deliveries
  covered : ∀ a ∈ assigned, a.2 ∈ deliveryHashes c deliveries
  extended : ∃ remotes : List Hash,
    deliveries.map Delivery.transaction = transactions ++ remotes.map remoteTransaction
  known : ∀ h ∈ deliveryHashes c deliveries, h ∈ transactions.map c.getHash ++ assigned.map Prod.snd

section Shares

variable {c} {assigned : List (Signature × Hash)} {hash : Hash} {sig : Signature}
  {deliveries deliveries' : List Delivery}

theorem signaturesFor_append_self :
    signaturesFor (assigned ++ [(sig, hash)]) hash = signaturesFor assigned hash ++ [sig] := by
  simp [signaturesFor]

theorem signaturesFor_append_of_ne {h : Hash} (hne : hash ≠ h) :
    signaturesFor (assigned ++ [(sig, hash)]) h = signaturesFor assigned h := by
  simp [signaturesFor, hne]

theorem attachSignature_eq_none :
    attachSignature c hash sig deliveries = none ↔ hash ∉ deliveryHashes c deliveries := by
  induction deliveries with
  | nil => simp [attachSignature, deliveryHashes]
  | cons d rest ih =>
    unfold attachSignature
    cases hrest : attachSignature c hash sig rest with
    | some rest' =>
      have hmem : hash ∈ deliveryHashes c rest := by
        by_contra hmem
        rw [ih.2 hmem] at hrest
        cases hrest
      simp only [reduceCtorEq, false_iff, not_not]
      exact List.mem_cons_of_mem _ hmem
    | none =>
      have hmem := ih.1 hrest
      show (if c.getHash d.transaction = hash then _ else none) = none ↔
        hash ∉ c.getHash d.transaction :: deliveryHashes c rest
      by_cases hd : c.getHash d.transaction = hash
      · simp [hd]
      · simp [hd, hmem, Ne.symm hd]

theorem attachSignature_transactions
    (h : attachSignature c hash sig deliveries = some deliveries') :
    deliveries'.map Delivery.transaction = deliveries.map Delivery.transaction := by
  induction deliveries generalizing deliveries' with
  | nil => cases h
  | cons d rest ih =>
    unfold attachSignature at h
    cases hrest : attachSignature c hash sig rest with
    | some rest' =>
      rw [hrest] at h
      cases h
      rw [List.map_cons, List.map_cons, ih hrest]
    | none =>
      rw [hrest] at h
      dsimp only at h
      split at h
      · cases h
        rfl
      · cases h

theorem attachSignature_hashes (h : attachSignature c hash sig deliveries = some deliveries') :
    deliveryHashes c deliveries' = deliveryHashes c deliveries := by
  have hmap := congrArg (List.map c.getHash) (attachSignature_transactions h)
  simpa [deliveryHashes, Function.comp_def] using hmap

section

variable (h : Shares c assigned deliveries)

include h

theorem Shares.of_not_mem (hmem : hash ∉ deliveryHashes c deliveries) :
    Shares c (assigned ++ [(sig, hash)]) deliveries := by
  induction deliveries with
  | nil => trivial
  | cons d rest ih =>
    obtain ⟨hne, hrest⟩ := List.ne_and_not_mem_of_not_mem_cons hmem
    refine ⟨?_, ih h.2 hrest⟩
    rw [signaturesFor_append_of_ne hne]
    exact h.1

theorem Shares.attach (hattach : attachSignature c hash sig deliveries = some deliveries') :
    Shares c (assigned ++ [(sig, hash)]) deliveries' := by
  induction deliveries generalizing deliveries' with
  | nil => cases hattach
  | cons d rest ih =>
    unfold attachSignature at hattach
    cases hrest : attachSignature c hash sig rest with
    | some rest' =>
      rw [hrest] at hattach
      cases hattach
      refine ⟨?_, ih h.2 hrest⟩
      rw [attachSignature_hashes hrest, h.1]
      by_cases hd : hash = c.getHash d.transaction
      · -- a later delivery has the hash, and this one keeps nothing
        have hlater : c.getHash d.transaction ∈ deliveryHashes c rest := by
          by_contra hmem
          rw [attachSignature_eq_none.2 (hd ▸ hmem)] at hrest
          cases hrest
        rw [if_pos hlater, if_pos hlater]
      · rw [signaturesFor_append_of_ne hd]
    | none =>
      have hmem := attachSignature_eq_none.1 hrest
      rw [hrest] at hattach
      dsimp only at hattach
      split at hattach
      · rename_i hd
        cases hattach
        refine ⟨?_, h.2.of_not_mem hmem⟩
        have hshare := h.1
        rw [hd, if_neg hmem] at hshare
        rw [hd, if_neg hmem, signaturesFor_append_self, hshare]
      · cases hattach

theorem Shares.concat {d : Delivery} (hd : c.getHash d.transaction ∉ deliveryHashes c deliveries)
    (hsignatures : d.signatures = signaturesFor assigned (c.getHash d.transaction)) :
    Shares c assigned (deliveries ++ [d]) := by
  induction deliveries with
  | nil => exact ⟨hsignatures, trivial⟩
  | cons e rest ih =>
    obtain ⟨hne, hrest⟩ := List.ne_and_not_mem_of_not_mem_cons hd
    refine ⟨?_, ih h.2 hrest⟩
    have hiff : c.getHash e.transaction ∈ deliveryHashes c (rest ++ [d]) ↔
        c.getHash e.transaction ∈ deliveryHashes c rest := by
      simp [deliveryHashes, Ne.symm hne]
    by_cases hlater : c.getHash e.transaction ∈ deliveryHashes c rest
    · have hnone := h.1
      rw [if_pos hlater] at hnone
      exact hnone.trans (if_pos (hiff.2 hlater)).symm
    · have hshare := h.1
      rw [if_neg hlater] at hshare
      exact hshare.trans (if_neg (hlater ∘ hiff.1)).symm

/-- If every delivery has signatures, then no hash occurs twice, and each delivery has the
signatures assigned to its hash. -/
theorem Shares.nodup (hsigned : ∀ d ∈ deliveries, d.signatures ≠ []) :
    (deliveryHashes c deliveries).Nodup ∧
      ∀ d ∈ deliveries, d.signatures = signaturesFor assigned (c.getHash d.transaction) := by
  induction deliveries with
  | nil => exact ⟨List.nodup_nil, nofun⟩
  | cons d rest ih =>
    obtain ⟨hd, hrest⟩ := List.forall_mem_cons.1 hsigned
    obtain ⟨hnodup, hshares⟩ := ih h.2 hrest
    have hlast : c.getHash d.transaction ∉ deliveryHashes c rest := by
      intro hmem
      have hnone := h.1
      rw [if_pos hmem] at hnone
      exact hd hnone
    refine ⟨List.nodup_cons.2 ⟨hlast, hnodup⟩, List.forall_mem_cons.2 ⟨?_, hshares⟩⟩
    rw [h.1, if_neg hlast]

end

end Shares

section Loop

variable {c} {envTxHash : Option Hash} {transactions : List Transaction}
  {assigned : List (Signature × Hash)} {deliveries deliveries' : List Delivery}

variable {sig : Signature} {hash : Hash}

section

variable (h : Attached c transactions assigned deliveries)

include h

theorem Attached.goesTo {own target : Hash} (hown : sig.getTransactionHash = .ok own)
    (htarget : signatureTarget c envTxHash deliveries own = .ok target) :
    GoesTo c envTxHash transactions (assigned.map Prod.snd) sig target := by
  refine ⟨own, hown, ?_⟩
  unfold signatureTarget at htarget
  split at htarget
  · rename_i hne
    rw [if_pos hne]
    exact (Outcome.ok.inj htarget).symm
  · rename_i hzero
    rw [if_neg hzero]
    split at htarget
    · exact (Outcome.ok.inj htarget).symm
    · rename_i only hdedup
      obtain rfl := Outcome.ok.inj htarget
      -- All the hashes are the one that is left when the duplicates are dropped.
      have honly : ∀ h, h ∈ deliveryHashes c deliveries ↔ h = only := by
        intro h
        rw [← List.mem_dedup]
        exact (congrArg (h ∈ ·) hdedup).to_iff.trans List.mem_singleton
      obtain ⟨remotes, htransactions⟩ := h.extended
      refine ⟨h.known only ((honly only).2 rfl), fun k hk => (honly k).1 ?_⟩
      rcases List.mem_append.1 hk with hk | hk
      · have hmap : deliveryHashes c deliveries =
            (transactions ++ remotes.map remoteTransaction).map c.getHash := by
          rw [← htransactions, List.map_map]
          rfl
        rw [hmap, List.map_append]
        exact List.mem_append_left _ hk
      · obtain ⟨a, ha, rfl⟩ := List.mem_map.1 hk
        exact h.covered a ha
    · cases htarget

theorem Attached.attach
    (hattach : attachSignature c hash sig deliveries = some deliveries') :
    Attached c transactions (assigned ++ [(sig, hash)]) deliveries' where
  shares := h.shares.attach hattach
  covered := by
    have hmem : hash ∈ deliveryHashes c deliveries := by
      by_contra hmem
      rw [attachSignature_eq_none.2 hmem] at hattach
      cases hattach
    rw [attachSignature_hashes hattach]
    intro a ha
    rcases List.mem_append.1 ha with ha | ha
    · exact h.covered a ha
    · rw [List.mem_singleton.1 ha]
      exact hmem
  extended := by
    rw [attachSignature_transactions hattach]
    exact h.extended
  known := by
    rw [attachSignature_hashes hattach]
    intro k hk
    rw [List.map_append, ← List.append_assoc]
    exact List.mem_append_left _ (h.known k hk)

theorem Attached.remote (hmem : hash ∉ deliveryHashes c deliveries) :
    Attached c transactions (assigned ++ [(sig, hash)])
      (deliveries ++ [.new (remoteTransaction hash) [sig]]) where
  shares := by
    refine (h.shares.of_not_mem hmem).concat hmem ?_
    -- No signature has been assigned to the hash before.
    have hnone : signaturesFor assigned hash = [] := by
      have hfilter : assigned.filter (fun a => a.2 = hash) = [] := by
        refine List.filter_eq_nil_iff.2 fun a ha hhash => hmem ?_
        rw [← of_decide_eq_true hhash]
        exact h.covered a ha
      rw [signaturesFor, hfilter, List.map_nil]
    show [sig] = signaturesFor (assigned ++ [(sig, hash)]) hash
    rw [signaturesFor_append_self, hnone, List.nil_append]
  covered := by
    intro a ha
    rw [deliveryHashes, List.map_append]
    rcases List.mem_append.1 ha with ha | ha
    · exact List.mem_append_left _ (h.covered a ha)
    · rw [List.mem_singleton.1 ha]
      exact List.mem_append_right _ (List.mem_singleton_self _)
  extended := by
    obtain ⟨remotes, htransactions⟩ := h.extended
    refine ⟨remotes ++ [hash], ?_⟩
    rw [List.map_append, htransactions, List.map_append, List.append_assoc]
    rfl
  known := by
    intro k hk
    rw [deliveryHashes, List.map_append] at hk
    rw [List.map_append, ← List.append_assoc]
    rcases List.mem_append.1 hk with hk | hk
    · exact List.mem_append_left _ (h.known k hk)
    · rw [List.mem_singleton.1 hk]
      exact List.mem_append_right _ (List.mem_singleton_self _)

theorem Attached.run {sigs : List Signature}
    (hrun : attachSignatures c envTxHash sigs deliveries = .ok deliveries') :
    ∃ targets : List Hash, targets.length = sigs.length ∧
      Attached c transactions (assigned ++ sigs.zip targets) deliveries' ∧
      ∀ (i : Nat) sig target, sigs[i]? = some sig → targets[i]? = some target →
        GoesTo c envTxHash transactions (assigned.map Prod.snd ++ targets.take i) sig target := by
  induction sigs generalizing assigned deliveries with
  | nil =>
    cases hrun
    refine ⟨[], rfl, ?_, nofun⟩
    rw [List.zip_nil_left, List.append_nil]
    exact h
  | cons sig rest ih =>
    obtain ⟨own, hown, hrun⟩ := Outcome.bind_eq_ok.1 hrun
    obtain ⟨hash, hhash, hrun⟩ := Outcome.bind_eq_ok.1 hrun
    have hgoes := h.goesTo hown hhash
    have hstep : ∃ next, Attached c transactions (assigned ++ [(sig, hash)]) next ∧
        attachSignatures c envTxHash rest next = .ok deliveries' := by
      cases hattach : attachSignature c hash sig deliveries with
      | some next =>
        rw [hattach] at hrun
        exact ⟨next, h.attach hattach, hrun⟩
      | none =>
        rw [hattach] at hrun
        exact ⟨_, h.remote (attachSignature_eq_none.1 hattach), hrun⟩
    obtain ⟨next, hnext, hrest⟩ := hstep
    obtain ⟨targets, hlength, hattached, hall⟩ := ih hnext hrest
    refine ⟨hash :: targets, by simp [hlength], ?_, ?_⟩
    · rw [List.zip_cons_cons, List.append_cons]
      exact hattached
    intro i s target hs htarget
    cases i with
    | zero =>
      cases hs
      cases htarget
      rw [List.take_zero, List.append_nil]
      exact hgoes
    | succ i =>
      have hi := hall i s target hs htarget
      rw [List.map_append, List.append_assoc] at hi
      exact hi

end

end Loop

theorem envelopeDeliveries_eq_ok {raw : List (TransactionOf (Option TransactionBody))}
    (h : envelopeDeliveries raw = .ok deliveries) :
    ∃ transactions : List Transaction,
      raw = transactions.map (fun t => ⟨t.header, some t.body⟩) ∧
      deliveries = transactions.map fun t => .new t [] := by
  induction raw generalizing deliveries with
  | nil =>
    cases h
    exact ⟨[], rfl, rfl⟩
  | cons t rest ih =>
    obtain ⟨header, body⟩ := t
    cases body with
    | none => cases h
    | some body =>
      obtain ⟨others, hothers, h⟩ := Outcome.bind_eq_ok.1 h
      obtain ⟨transactions, hraw, hdeliveries⟩ := ih hothers
      cases h
      exact ⟨⟨header, body⟩ :: transactions, by rw [hraw]; rfl, by rw [hdeliveries]; rfl⟩

theorem shares_new (transactions : List Transaction) :
    Shares c [] (transactions.map fun t => .new t []) := by
  induction transactions with
  | nil => trivial
  | cons t rest ih =>
    refine ⟨?_, ih⟩
    split <;> rfl

theorem attached_new (transactions : List Transaction) :
    Attached c transactions [] (transactions.map fun t => .new t []) where
  shares := shares_new c transactions
  covered := nofun
  extended := ⟨[], by simp [Function.comp_def, Delivery.new]⟩
  known := by simp [deliveryHashes, Delivery.new]

def looseEnvelope (rest : List Signature) : Envelope :=
  ⟨.internal 0 1 :: .internal 0 0 :: rest, .missing, []⟩

end Accumulate.Chain
