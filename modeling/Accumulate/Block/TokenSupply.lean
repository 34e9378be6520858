import Accumulate.Block.SyntheticRefunds
import Accumulate.Block.TokenMoves
import Accumulate.Library.Total

/-!
# The supply of a token

A `TokenLedger` is what token transactions are about: the token accounts and issuers, and
the deposits and burns in flight.  Its steps are the intended ones: a user moves tokens out
of an account or issues them, a transaction in flight is received, or it is returned.  Over
every run of such steps the amount an issuer has issued is the sum of all balances and of
what is in flight.

A `Network` is a number of partitions that execute deliveries, and the transactions that are
on their way from one to another.  `Network.step_refines` connects the two: a step of the
network is a step of the ledger as long as the delivery is regular.
-/

namespace Accumulate

open Library Protocol Database Accumulate.Core Chain

/-! ## Amounts -/

def TokenView.balance (token : Url) (v : TokenView) : Int :=
  match v.1 with
  | some (t, b) => if t = token then b else 0
  | none => 0

def TokenView.issued (v : TokenView) : Int := v.2.getD 0

/-- The amount of a token that a transaction carries: a deposit carries its own token, and a
burn the token of the issuer it is sent to. -/
def carried (token : Url) (t : Transaction) : Int :=
  match t.body with
  | .payload (.syntheticDepositTokens _ u amount _ _) => if u = some token then amount else 0
  | .payload (.syntheticBurnTokens _ amount _) =>
    if t.header.principal = some token then amount else 0
  | _ => 0

/-- The transaction is sent from `u`: its origin names a transaction of that account. -/
def SentFrom (u : Url) (t t' : Transaction) : Prop :=
  t'.header.principal = t.header.principal ∧
    ∃ f : SyntheticOrigin → SyntheticOrigin, t'.body = t.body.withOrigin f ∧
      ∀ o, ∃ hash, (f o).cause = some ⟨u, hash⟩

variable {u token : Url} {t : Transaction}

theorem carried_of_sentFrom {t' : Transaction} (h : SentFrom u t t') :
    carried token t' = carried token t := by
  obtain ⟨hp, f, hbody, -⟩ := h
  unfold carried
  rw [hp, hbody]
  cases t.body with
  | payload p => cases p <;> rfl
  | _ => rfl

theorem carried_of_isUser (h : t.type.isUser = true) : carried token t = 0 := by
  have hbody : t.body.type.isUser = true := h
  unfold carried
  split
  · rename_i hdeposit
    rw [hdeposit] at hbody
    cases hbody
  · rename_i hburn
    rw [hburn] at hbody
    cases hbody
  · rfl

theorem sum_carried_of_sentFrom {l l' : List Transaction} (h : List.Forall₂ (SentFrom u) l l') :
    (l'.map (carried token)).sum = (l.map (carried token)).sum := by
  induction h with
  | nil => rfl
  | cons hsent _ ih =>
    rw [List.map_cons, List.map_cons, List.sum_cons, List.sum_cons, ih,
      carried_of_sentFrom hsent]

theorem sum_carried_deposits (token u : Url) (isIssuer : Bool) (l : List TokenRecipient) :
    ((Tokens.deposits u isIssuer l).map (carried token)).sum =
      if u = token then (l.map (·.amount)).sum else 0 := by
  induction l with
  | nil => simp [Tokens.deposits]
  | cons r rest ih =>
    have hcons : Tokens.deposits u isIssuer (r :: rest) =
      ⟨⟨r.url, 0, "", []⟩, Tokens.deposit u isIssuer r.amount⟩ ::
        Tokens.deposits u isIssuer rest := rfl
    rw [hcons, List.map_cons, List.sum_cons, ih]
    change (if some u = some token then r.amount else 0) + _ = _
    simp only [Option.some.injEq]
    split <;> simp

/-- **A move neither makes nor loses tokens.**  What the principal holds afterwards, together
with what is sent and less what is newly issued, is what it held and what the transaction
carried. -/
theorem TokenMove.conserves {v v' : TokenView} {p : List Transaction}
    (h : TokenMove u t.body v v' p) (hp : t.header.principal = some u) :
    v'.balance token + (p.map (carried token)).sum - (if u = token then v'.issued else 0) =
      v.balance token + carried token t - (if u = token then v.issued else 0) := by
  generalize hbody : t.body = body at h
  cases h with
  | send hamounts | issue hamounts =>
    have hcarried : carried token t = 0 := by simp [carried, hbody]
    rw [sum_carried_deposits, hcarried]
    simp only [TokenView.balance, TokenView.issued]
    split <;> simp
  | burn hamount =>
    have hcarried : carried token t = 0 := by simp [carried, hbody]
    rw [hcarried]
    simp only [TokenView.balance, TokenView.issued, List.map_cons, carried, Option.some.injEq]
    split <;> simp
  | @credit origin token' balance amount isIssuer isRefund hamount
  | @create origin token' amount isIssuer isRefund hamount =>
    have hcarried : carried token t = if token' = token then amount else 0 := by
      simp [carried, hbody]
    rw [hcarried]
    simp only [TokenView.balance, TokenView.issued]
    split <;> simp
  | @retire origin issued amount isRefund hamount =>
    have hcarried : carried token t = if u = token then amount else 0 := by
      simp [carried, hbody, hp]
    rw [hcarried]
    simp only [TokenView.balance, TokenView.issued]
    split <;> simp

/-! ## The ledger -/

/-- The token accounts and issuers, and what is in flight between them. -/
structure TokenLedger where
  view : Url → TokenView
  inFlight : List Transaction

namespace TokenLedger

def issued (token : Url) (L : TokenLedger) : Int := (L.view token).issued

/-- The supply of a token: all balances and all that is in flight. -/
noncomputable def supply (token : Url) (L : TokenLedger) : Int :=
  ∑ᶠ u, (L.view u).balance token + (L.inFlight.map (carried token)).sum

/-- The intended steps.

* `stutter`: nothing happens to tokens.
* `user`: a user transaction makes its move, and what it submits is sent.
* `receive`: a transaction in flight makes its move.
* `sendBack`: a transaction in flight fails.  What is due is sent back; if nothing is, then the
  transaction was not one to be received. -/
inductive Step : TokenLedger → TokenLedger → Prop where
  | stutter {L : TokenLedger} : Step L L
  | user {L : TokenLedger} {u : Url} {t : Transaction} {v : TokenView} {p sent : List Transaction}
      (huser : t.type.isUser = true) (hp : t.header.principal = some u)
      (hmove : TokenMove u t.body (L.view u) v p) (hsent : List.Forall₂ (SentFrom u) p sent) :
      Step L ⟨Function.update L.view u v, L.inFlight ++ sent⟩
  | receive {view : Url → TokenView} {before after : List Transaction} {u : Url} {t : Transaction}
      {v : TokenView} (hp : t.header.principal = some u)
      (hmove : TokenMove u t.body (view u) v []) :
      Step ⟨view, before ++ t :: after⟩ ⟨Function.update view u v, before ++ after⟩
  | sendBack {view : Url → TokenView} {before after : List Transaction} {u : Url} {t : Transaction}
      {sent : List Transaction} (hp : t.header.principal = some u)
      (hdue : Executor.Receivable t.body (view u) → Executor.returned t.body ≠ [])
      (hsent : List.Forall₂ (SentFrom u) (Executor.returned t.body) sent) :
      Step ⟨view, before ++ t :: after⟩ ⟨view, before ++ after ++ sent⟩

def Holds (L : TokenLedger) (token u : Url) : Prop := ∃ b, L.view u = (some (token, b), none)

/-- A transaction in flight can be received or returned.  No amount is negative; a refund of
the token is on its way to an account of the token; any other deposit names where it comes
from, which is the issuer for issued tokens and an account of the token otherwise. -/
def Returnable (L : TokenLedger) (token : Url) (t : Transaction) : Prop :=
  match t.body with
  | .payload (.syntheticDepositTokens _ u amount _ true) =>
    0 ≤ amount ∧ (u = some token → ∃ v, t.header.principal = some v ∧ L.Holds token v)
  | .payload (.syntheticDepositTokens origin u amount isIssuer false) =>
    0 ≤ amount ∧ ∃ cause, origin.cause = some cause ∧
      if isIssuer then u = some cause.account
      else u = some token → L.Holds token cause.account
  | .payload (.syntheticBurnTokens _ amount _) => 0 ≤ amount
  | _ => True

/-- What the conservation of a token rests on: it has an issuer, only finitely many accounts
have a balance, and everything in flight can be received or returned. -/
structure Sound (token : Url) (L : TokenLedger) : Prop where
  issuer : ∃ n, L.view token = (none, some n)
  finite : (Function.support fun u => (L.view u).balance token).Finite
  flight : ∀ t ∈ L.inFlight, L.Returnable token t

def Balanced (token : Url) (L : TokenLedger) : Prop := L.issued token = L.supply token

section Steps

variable {token u : Url} {L L' : TokenLedger} {v : TokenView} {t : Transaction}
variable {p sent : List Transaction}

theorem holds_update (hmove : TokenMove u t.body (L.view u) v p) {w : Url} (l : List Transaction)
    (hw : L.Holds token w) : TokenLedger.Holds ⟨Function.update L.view u v, l⟩ token w := by
  obtain ⟨b, hb⟩ := hw
  by_cases hwu : w = u
  · subst hwu
    rw [hb] at hmove
    change ∃ b, Function.update L.view w v w = (some (token, b), none)
    rw [Function.update_self]
    generalize t.body = body at hmove
    cases hmove with
    | send | burn | credit => exact ⟨_, rfl⟩
  · exact ⟨b, (Function.update_of_ne hwu v L.view).trans hb⟩

theorem issuer_update (hmove : TokenMove u t.body (L.view u) v p)
    (h : ∃ n, L.view token = (none, some n)) :
    ∃ n, Function.update L.view u v token = (none, some n) := by
  obtain ⟨n, hn⟩ := h
  by_cases htu : token = u
  · subst htu
    rw [hn] at hmove
    rw [Function.update_self]
    generalize t.body = body at hmove
    cases hmove with
    | issue | retire => exact ⟨_, rfl⟩
  · exact ⟨n, by rw [Function.update_of_ne htu, hn]⟩

theorem supply_update (hfinite : (Function.support fun w => (L.view w).balance token).Finite)
    (l : List Transaction) :
    TokenLedger.supply token ⟨Function.update L.view u v, l⟩ =
      ∑ᶠ w, (L.view w).balance token + (v.balance token - (L.view u).balance token) +
        (l.map (carried token)).sum := by
  have hupdate : (fun w => (Function.update L.view u v w).balance token) =
      Function.update (fun w => (L.view w).balance token) u (v.balance token) := by
    funext w
    by_cases hw : w = u
    · subst hw
      rw [Function.update_self, Function.update_self]
    · rw [Function.update_of_ne hw, Function.update_of_ne hw]
  unfold supply
  simp only [hupdate]
  rw [finsum_update hfinite]

theorem finite_update (hfinite : (Function.support fun w => (L.view w).balance token).Finite) :
    (Function.support fun w => (Function.update L.view u v w).balance token).Finite := by
  refine (hfinite.insert u).subset fun w hw => ?_
  by_cases hwu : w = u
  · exact .inl hwu
  · rw [Function.mem_support, Function.update_of_ne hwu] at hw
    exact .inr hw

theorem Returnable.mono (hholds : ∀ w, L.Holds token w → L'.Holds token w)
    (h : L.Returnable token t) : L'.Returnable token t := by
  unfold Returnable at h ⊢
  split
  · rename_i hbody
    rw [hbody] at h
    refine ⟨h.1, fun hu => ?_⟩
    obtain ⟨w, hw, hheld⟩ := h.2 hu
    exact ⟨w, hw, hholds w hheld⟩
  · rename_i hbody
    rw [hbody] at h
    obtain ⟨hamount, cause, hcause, hfrom⟩ := h
    refine ⟨hamount, cause, hcause, ?_⟩
    split at hfrom
    · rename_i hissuer
      rwa [if_pos hissuer]
    · rename_i hissuer
      rw [if_neg hissuer]
      exact fun hu => hholds _ (hfrom hu)
  · rename_i hbody
    rw [hbody] at h
    exact h
  · trivial

variable {s : Transaction} {t' : Transaction} {l : List Transaction}

theorem returnable_of_move (huser : t.type.isUser = true)
    (hmove : TokenMove u t.body (L.view u) v p) (hview : L'.view u = v) (hs : s ∈ p)
    (hsent : SentFrom u s t') : L'.Returnable token t' := by
  obtain ⟨-, f, hbody, hcause⟩ := hsent
  have htype : t.body.type.isUser = true := huser
  generalize t.body = body at hmove htype
  generalize L.view u = view at hmove
  have hdeposit : ∀ {w : Url} {isIssuer : Bool} {amount : Int}, 0 ≤ amount →
      s.body = Tokens.deposit w isIssuer amount →
      (isIssuer = true → w = u) → (isIssuer = false → ∃ b, L'.view u = (some (w, b), none)) →
      L'.Returnable token t' := by
    intro w isIssuer amount hamount hs hissuer hheld
    rw [hs] at hbody
    unfold Returnable
    rw [hbody]
    obtain ⟨hash, hf⟩ := hcause .empty
    refine ⟨hamount, _, hf, ?_⟩
    cases isIssuer with
    | true => exact congrArg some (hissuer rfl)
    | false =>
      rintro hw
      cases hw
      exact hheld rfl
  cases hmove with
  | send hamounts =>
    obtain ⟨r, hr, rfl⟩ := List.mem_map.1 hs
    exact hdeposit (hamounts r hr) rfl (nofun) fun _ => ⟨_, hview⟩
  | issue hamounts =>
    obtain ⟨r, hr, rfl⟩ := List.mem_map.1 hs
    exact hdeposit (hamounts r hr) rfl (fun _ => rfl) nofun
  | burn hamount =>
    obtain rfl := List.mem_singleton.1 hs
    unfold Returnable
    rw [hbody]
    exact hamount
  | credit | create | retire => cases htype

theorem returnable_of_returned (h : L.Returnable token t)
    (hs : s ∈ Executor.returned t.body) (hsent : SentFrom u s t') : L.Returnable token t' := by
  obtain ⟨hp, f, hbody, -⟩ := hsent
  unfold Executor.returned at hs
  unfold Returnable at h
  split at hs
  · rename_i cause initiator feeRefund w amount isIssuer hdeposit
    rw [hdeposit] at h
    obtain rfl := List.mem_singleton.1 hs
    obtain ⟨hamount, _, hcause, hfrom⟩ := h
    cases hcause
    unfold Returnable
    cases isIssuer with
    | true =>
      rw [hbody]
      exact hamount
    | false =>
      rw [hbody]
      exact ⟨hamount, fun hw => ⟨cause.account, hp, hfrom hw⟩⟩
  · cases hs

theorem carried_of_undue (hsound : L.Sound token) (hp : t.header.principal = some u)
    (ht : L.Returnable token t) (hdue : ¬ Executor.Receivable t.body (L.view u))
    (hnone : Executor.returned t.body = []) : carried token t = 0 := by
  unfold carried
  unfold Returnable at ht
  split
  · rename_i origin w amount isIssuer isRefund hbody
    rw [hbody] at ht hdue hnone
    split
    · rename_i hw
      subst hw
      cases isRefund with
      | true =>
        obtain ⟨v, hv, b, hb⟩ := ht.2 rfl
        obtain rfl := Option.some.inj (hp.symm.trans hv)
        rw [hb] at hdue
        exact absurd (.deposit ht.1) hdue
      | false =>
        obtain ⟨cause, initiator, feeRefund⟩ := origin
        obtain ⟨-, _, hcause, -⟩ := ht
        cases hcause
        cases hnone
    · rfl
  · rename_i origin amount isRefund hbody
    rw [hbody] at ht hdue
    split
    · rename_i hw
      obtain rfl := Option.some.inj (hp.symm.trans hw)
      obtain ⟨n, hn⟩ := hsound.issuer
      rw [hn] at hdue
      exact absurd (.burn ht) hdue
    · rfl
  · rfl

theorem sum_carried_returned (ht : L.Returnable token t) (hdue : Executor.returned t.body ≠ []) :
    ((Executor.returned t.body).map (carried token)).sum = carried token t := by
  unfold Executor.returned at hdue ⊢
  unfold Returnable at ht
  split at hdue
  · rename_i cause initiator feeRefund w amount isIssuer hbody
    rw [hbody] at ht
    obtain ⟨-, _, hcause, hfrom⟩ := ht
    cases hcause
    have hcarried : carried token t = if w = some token then amount else 0 := by
      rw [carried, hbody]
    rw [hcarried, List.map_singleton, List.sum_singleton]
    cases isIssuer with
    | true =>
      -- the issuer gets its own token back
      have hissuer : w = some cause.account := hfrom
      rw [hissuer]
      rfl
    | false => rfl
  · exact absurd rfl hdue

/-- A move keeps the difference between the supply and the amount issued, if what it sends
takes the place of what the transaction carried. -/
theorem difference_update (hfinite : (Function.support fun w => (L.view w).balance token).Finite)
    (hp : t.header.principal = some u) (hmove : TokenMove u t.body (L.view u) v p)
    (hl : (l.map (carried token)).sum + carried token t =
      (L.inFlight.map (carried token)).sum + (p.map (carried token)).sum) :
    TokenLedger.supply token ⟨Function.update L.view u v, l⟩ -
        TokenLedger.issued token ⟨Function.update L.view u v, l⟩ =
      L.supply token - L.issued token := by
  have hconserve : v.balance token + (p.map (carried token)).sum -
      (if u = token then v.issued else 0) = (L.view u).balance token + carried token t -
        (if u = token then (L.view u).issued else 0) := hmove.conserves hp
  rw [supply_update hfinite]
  unfold supply issued
  by_cases hu : u = token
  · subst hu
    rw [if_pos rfl, if_pos rfl] at hconserve
    simp only [Function.update_self]
    omega
  · rw [if_neg hu, if_neg hu] at hconserve
    simp only [Function.update_of_ne (Ne.symm hu)]
    omega

theorem mem_of_forall₂ {R : Transaction → Transaction → Prop} {l' : List Transaction}
    (h : List.Forall₂ R l l') (hs : s ∈ l') : ∃ s₀ ∈ l, R s₀ s := by
  induction h with
  | nil => cases hs
  | cons hR _ ih =>
    rcases List.mem_cons.1 hs with rfl | hs
    · exact ⟨_, List.mem_cons_self, hR⟩
    · obtain ⟨s₀, hs₀, hR⟩ := ih hs
      exact ⟨s₀, List.mem_cons_of_mem _ hs₀, hR⟩

/-- **Step lemma.**  A step keeps the ledger sound and the difference between the supply and
the amount issued. -/
theorem Step.conserves (hsound : L.Sound token) (hstep : Step L L') :
    L'.Sound token ∧ L'.supply token - L'.issued token = L.supply token - L.issued token := by
  cases hstep with
  | stutter => exact ⟨hsound, rfl⟩
  | user huser hp hmove hsent =>
    constructor
    · refine ⟨issuer_update hmove hsound.issuer, finite_update hsound.finite, fun s hs => ?_⟩
      rcases List.mem_append.1 hs with hs | hs
      · exact (hsound.flight s hs).mono fun w => holds_update hmove _
      · obtain ⟨s₀, hs₀, hfrom⟩ := mem_of_forall₂ hsent hs
        exact returnable_of_move huser hmove (Function.update_self _ _ _) hs₀ hfrom
    · apply difference_update hsound.finite hp hmove
      -- a user transaction carries nothing itself
      rw [carried_of_isUser huser, List.map_append, List.sum_append,
        sum_carried_of_sentFrom hsent, add_zero]
  | receive hp hmove =>
    constructor
    · refine ⟨issuer_update hmove hsound.issuer, finite_update hsound.finite, fun s hs => ?_⟩
      have hold := hsound.flight s (List.mem_append.2 ((List.mem_append.1 hs).imp_right
        (List.mem_cons_of_mem _)))
      exact hold.mono fun w => holds_update hmove _
    · apply difference_update hsound.finite hp hmove
      simp only [List.map_append, List.sum_append, List.map_cons, List.sum_cons, List.map_nil,
        List.sum_nil]
      omega
  | @sendBack view before after u t sent hp hdue hsent =>
    have ht := hsound.flight t (List.mem_append_right _ List.mem_cons_self)
    constructor
    · refine ⟨hsound.issuer, hsound.finite, fun s hs => ?_⟩
      rcases List.mem_append.1 hs with hs | hs
      · exact hsound.flight s (List.mem_append.2 ((List.mem_append.1 hs).imp_right
          (List.mem_cons_of_mem _)))
      · obtain ⟨s₀, hs₀, hfrom⟩ := mem_of_forall₂ hsent hs
        exact returnable_of_returned ht hs₀ hfrom
    · have hreturned : (sent.map (carried token)).sum = carried token t := by
        rw [sum_carried_of_sentFrom hsent]
        by_cases hnone : Executor.returned t.body = []
        · rw [carried_of_undue hsound hp ht (fun h => hdue h hnone) hnone, hnone]
          rfl
        · exact sum_carried_returned ht hnone
      have hsame : TokenLedger.issued token ⟨view, before ++ after ++ sent⟩ =
        TokenLedger.issued token ⟨view, before ++ t :: after⟩ := rfl
      simp only [supply, List.map_append, List.sum_append, List.map_cons, List.sum_cons]
      omega

/-- **Run lemma.**  Over every run from a sound ledger, what is issued is the supply if it
was at the start. -/
theorem balanced_of_run (hsound : L.Sound token) (hbalanced : L.Balanced token)
    (hrun : Relation.ReflTransGen Step L L') : L'.Sound token ∧ L'.Balanced token := by
  induction hrun with
  | refl => exact ⟨hsound, hbalanced⟩
  | tail _ hstep ih =>
    obtain ⟨hsound, hbalanced⟩ := ih
    obtain ⟨hsound', hdiff⟩ := hstep.conserves hsound
    refine ⟨hsound', ?_⟩
    unfold Balanced at hbalanced ⊢
    omega

end Steps

end TokenLedger

/-! ## The network -/

/-- The blocks the partitions are executing, and the synthetic transactions that are on their
way. -/
structure Network (ι : Type) where
  block : ι → Block
  inFlight : List Transaction

namespace Network

variable {ι : Type} [DecidableEq ι] (x : ι → Executor) (route : Url → ι)

/-- What can happen in the network.

* `submit`: the delivery of a user transaction with the given principal is executed.
* `deliver`: the delivery of a transaction in flight is executed; `before` and `after` are
  the other transactions in flight.
* `other`: a block changes in some other way. -/
inductive Event (ι : Type) where
  | submit (u : Url) (d : Delivery) (status : TransactionStatus) (shouldProcess : Bool)
  | deliver (before after : List Transaction) (u : Url) (d : Delivery) (status : TransactionStatus)
  | other (i : ι) (b : Block)

def execute (n : Network ι) (u : Url) (d : Delivery) (status : TransactionStatus)
    (shouldProcess : Bool) : Outcome Error (TransactionStatus × List Delivery) × Block :=
  (x (route u)).executeSigned d status shouldProcess (n.block (route u))

/-- The transactions that an execution has sent.  If it ends in an error, the batch they are
recorded in is discarded. -/
def sent (o : Outcome Error (TransactionStatus × List Delivery)) (b b' : Block) :
    List Transaction :=
  match o with
  | .ok _ => b'.state.producedTxns.drop b.state.producedTxns.length
  | _ => []

def isDelivered (o : Outcome Error (TransactionStatus × List Delivery)) (hash : Hash)
    (b : Block) : Bool :=
  match o with
  | .ok (status, _) => status.delivered
  | _ => (b.batch.transaction hash).status.delivered

/-- The network after an event.  A transaction that has been executed is no longer in
flight. -/
def next (n : Network ι) : Event ι → Network ι
  | .submit u d status shouldProcess =>
    let r := n.execute x route u d status shouldProcess
    ⟨Function.update n.block (route u) r.2,
      n.inFlight ++ sent r.1 (n.block (route u)) r.2⟩
  | .deliver before after u d status =>
    -- a synthetic transaction is processed wherever its signatures come from
    let r := n.execute x route u d status true
    ⟨Function.update n.block (route u) r.2,
      (if isDelivered r.1 ((x (route u)).getHash d.transaction) r.2 then before ++ after
        else n.inFlight) ++ sent r.1 (n.block (route u)) r.2⟩
  | .other i b => ⟨Function.update n.block i b, n.inFlight⟩

/-- The events that are considered: the five token transactions, each synthetic one of which
has been sent and has not been executed yet, and whatever does not concern tokens. -/
def Enabled (n : Network ι) : Event ι → Prop
  | .submit u d _ _ =>
    (d.type = .sendTokens ∨ d.type = .issueTokens ∨ d.type = .burnTokens) ∧
      d.transaction.header.principal = some u
  | .deliver before after u d _ =>
    (d.type = .syntheticDepositTokens ∨ d.type = .syntheticBurnTokens) ∧
      d.transaction.header.principal = some u ∧
      n.inFlight = before ++ d.transaction :: after ∧
      ((n.block (route u)).batch.transaction
        ((x (route u)).getHash d.transaction)).status.delivered = false
  | .other i b => KeepsTokens (x i).crypto (n.block i).batch b.batch

/-- The transaction is the return of tokens that could not be received, or a burn: nothing is
sent back when it fails. -/
def IsFinal (body : TransactionBody) : Prop := Executor.returned body = []

/-- An execution is regular if it does not end in an error, if the principal is not a network
account whose update is rejected after the fact and, for a transaction that nothing is sent
back for, if it has been delivered as it should. -/
def Regular (n : Network ι) : Event ι → Prop
  | .submit u d status shouldProcess =>
    (∃ r, (n.execute x route u d status shouldProcess).1 = .ok r) ∧
      ¬ (x (route u)).RejectsUpdate d u (n.block (route u)).batch
  | .deliver _ _ u d status =>
    (∃ r, (n.execute x route u d status true).1 = .ok r) ∧
      ¬ (x (route u)).RejectsUpdate d u (n.block (route u)).batch ∧
      (IsFinal d.transaction.body → (x (route u)).Verified d u (n.block (route u)).batch)
  | .other _ _ => True

def Step (n n' : Network ι) : Prop := ∃ e, n.Enabled x route e ∧ n' = n.next x route e

def RegularStep (n n' : Network ι) : Prop :=
  ∃ e, n.Enabled x route e ∧ n.Regular x route e ∧ n' = n.next x route e

/-- The token accounts of the network, each on the partition it is routed to, and the token
transactions in flight. -/
def ledger (n : Network ι) : TokenLedger where
  view u := (n.block (route u)).batch.tokenView u
  inFlight := n.inFlight.filter (·.type.movesTokens)

def Stored (n : Network ι) : Prop := ∀ i, (n.block i).batch.Stored (x i).crypto

/-! ## Refinement -/

section Refinement

variable {x route} {n n' : Network ι} {u : Url} {v : TokenView} {b : Block}

theorem ledger_update (l : List Transaction) (hview : ∀ w, b.batch.tokenView w =
      if w = u then v else (n.block (route u)).batch.tokenView w) :
    Network.ledger route ⟨Function.update n.block (route u) b, l⟩ =
      ⟨Function.update (n.ledger route).view u v, l.filter (·.type.movesTokens)⟩ := by
  unfold ledger
  congr 1
  funext w
  by_cases hw : w = u
  · subst hw
    simp only [Function.update_self]
    rw [hview, if_pos rfl]
  · rw [Function.update_of_ne hw]
    by_cases hroute : route w = route u
    · simp only [hroute, Function.update_self]
      rw [hview, if_neg hw]
    · simp only [Function.update_of_ne hroute]

theorem ledger_same {i : ι} (l : List Transaction)
    (hview : ∀ w, b.batch.tokenView w = (n.block i).batch.tokenView w) :
    Network.ledger route ⟨Function.update n.block i b, l⟩ =
      ⟨(n.ledger route).view, l.filter (·.type.movesTokens)⟩ := by
  unfold ledger
  congr 1
  funext w
  by_cases hroute : route w = i
  · subst hroute
    simp only [Function.update_self]
    exact hview w
  · simp only [Function.update_of_ne hroute]

theorem stored_update {i : ι} (l : List Transaction) (hstored : n.Stored x)
    (hb : b.batch.Stored (x i).crypto) : Network.Stored x ⟨Function.update n.block i b, l⟩ := by
  intro j
  by_cases hj : j = i
  · subst hj
    simp only [Function.update_self]
    exact hb
  · simp only [Function.update_of_ne hj]
    exact hstored j

variable {p : List Transaction}

theorem sentFrom_filter {y : Executor} {forwards sent : List Transaction}
    (hp : t.header.principal = some u) (hforwards : ∀ s ∈ forwards, s.type.movesTokens = false)
    (hsent : List.Forall₂ (y.SentAs t) (p ++ forwards) sent) :
    List.Forall₂ (SentFrom u) (p.filter (·.type.movesTokens))
      (sent.filter (·.type.movesTokens)) := by
  have hnone : forwards.filter (·.type.movesTokens) = [] := by
    rw [List.filter_eq_nil_iff]
    exact fun s hs => by simp [hforwards s hs]
  have hfrom : ∀ s s', y.SentAs t s s' → SentFrom u s s' := by
    rintro s s' ⟨hprincipal, f, hbody, hcause⟩
    refine ⟨hprincipal, f, hbody, fun o => ⟨y.crypto.getHash t, ?_⟩⟩
    rw [hcause, Crypto.id, hp]
    rfl
  have htype : ∀ ⦃s s'⦄, y.SentAs t s s' →
      (s.type.movesTokens = true ↔ s'.type.movesTokens = true) := by
    rintro s s' ⟨-, f, hbody, -⟩
    have hsame : s'.type = s.type := by
      unfold TransactionOf.type
      rw [hbody]
      cases s.body with
      | payload p => cases p <;> rfl
      | _ => rfl
    rw [hsame]
  have hfilter := List.rel_filter htype hsent
  rw [List.filter_append, hnone, List.append_nil] at hfilter
  exact hfilter.imp hfrom

variable {body : TransactionBody} {w w' : TokenView} {l : List Transaction}

theorem filter_of_move (h : TokenMove u body w w' p) : p.filter (·.type.movesTokens) = p := by
  rw [List.filter_eq_self]
  cases h with
  | send | issue =>
    intro s hs
    obtain ⟨r, -, rfl⟩ := List.mem_map.1 hs
    rfl
  | burn =>
    intro s hs
    obtain rfl := List.mem_singleton.1 hs
    rfl
  | credit | create | retire => exact nofun

theorem nil_of_move (h : TokenMove u body w w' p)
    (htype : body.type = .syntheticDepositTokens ∨ body.type = .syntheticBurnTokens) : p = [] := by
  cases h with
  | credit | create | retire => rfl
  | send | issue | burn => rcases htype with htype | htype <;> cases htype

theorem filter_of_returned {l' : List Transaction} (h : ∀ s ∈ l ++ l', Executor.IsCreditRefund s) :
    (l ++ Executor.returned body ++ l').filter (·.type.movesTokens) = Executor.returned body := by
  have hnone : ∀ k : List Transaction, (∀ s ∈ k, Executor.IsCreditRefund s) →
      k.filter (·.type.movesTokens) = [] := by
    intro k hk
    rw [List.filter_eq_nil_iff]
    intro s hs
    obtain ⟨amount, hbody⟩ := hk s hs
    simp [TransactionOf.type, hbody, Executor.refundBody, TransactionBody.type, Payload.type,
      TransactionType.movesTokens]
  rw [List.filter_append, List.filter_append,
    hnone l fun s hs => h s (List.mem_append_left _ hs),
    hnone l' fun s hs => h s (List.mem_append_right _ hs), List.nil_append, List.append_nil,
    List.filter_eq_self]
  intro s hs
  unfold Executor.returned at hs
  split at hs
  · obtain rfl := List.mem_singleton.1 hs
    rename_i isIssuer
    cases isIssuer <;> rfl
  · cases hs

theorem sent_of_ok {r : TransactionStatus × List Delivery} {b' : Block}
    (h : b'.state.producedTxns = b.state.producedTxns ++ l) : sent (.ok r) b b' = l := by
  unfold sent
  simp only [h, List.drop_left]

variable {invalidChecksum : Url → Bool} {d : Delivery} {status : TransactionStatus}

section

variable (hx : ∀ i, (x i).RunsTokens invalidChecksum)

include hx

theorem submit_refines {shouldProcess : Bool}
    (hstored : n.Stored x) (henabled : n.Enabled x route (.submit u d status shouldProcess))
    (hregular : n.Regular x route (.submit u d status shouldProcess)) :
    (n.next x route (.submit u d status shouldProcess)).Stored x ∧
      TokenLedger.Step (n.ledger route)
        ((n.next x route (.submit u d status shouldProcess)).ledger route) := by
  obtain ⟨htype, hp⟩ := henabled
  obtain ⟨⟨⟨status', additional⟩, hok⟩, hupdate⟩ := hregular
  obtain ⟨b', hexec⟩ : ∃ b', n.execute x route u d status shouldProcess =
    (.ok (status', additional), b') := ⟨_, Prod.ext hok rfl⟩
  have hmoves : d.type.movesTokens = true := by rcases htype with h | h | h <;> rw [h] <;> rfl
  have huser : d.transaction.type.isUser = true := by
    change d.type.isUser = true
    rcases htype with h | h | h <;> rw [h] <;> rfl
  obtain ⟨hb', delivered, p, forwards, l, houtcome, -, hforwards, hsent, hproduced⟩ :=
    Executor.executeSigned_tokens (hx (route u)) hmoves hp (hstored (route u)) hexec
  have hfilter := sentFrom_filter hp hforwards hsent
  have hnext : n.next x route (.submit u d status shouldProcess) =
      ⟨Function.update n.block (route u) b', n.inFlight ++ l⟩ := by
    simp only [next, hexec, sent_of_ok hproduced]
  rw [hnext]
  refine ⟨stored_update _ hstored hb', ?_⟩
  cases houtcome with
  | waits hdelivered hview =>
    rw [ledger_same _ hview, List.filter_append, List.forall₂_nil_left_iff.1 hfilter,
      List.append_nil]
    exact .stutter
  | fails hreason hview hcredits =>
    have hnone : Executor.returned d.transaction.body = [] := by
      have hbody : d.transaction.body.type.isUser = true := huser
      unfold Executor.returned
      split
      · rename_i hdeposit
        rw [hdeposit] at hbody
        cases hbody
      · rfl
    rw [filter_of_returned hcredits, hnone] at hfilter
    rw [ledger_same _ hview, List.filter_append, List.forall₂_nil_left_iff.1 hfilter,
      List.append_nil]
    exact .stutter
  | failsLate hreject hmoved hcredits => exact absurd hreject hupdate
  | succeeds hmoved =>
    obtain ⟨v, hmove, hview⟩ := hmoved
    rw [filter_of_move hmove] at hfilter
    rw [ledger_update _ hview, List.filter_append]
    exact .user huser hp hmove hfilter

/-- A transaction in flight that is executed regularly is a step of the ledger. -/
theorem deliver_refines {before after : List Transaction} (hstored : n.Stored x)
    (henabled : n.Enabled x route (.deliver before after u d status))
    (hregular : n.Regular x route (.deliver before after u d status)) :
    (n.next x route (.deliver before after u d status)).Stored x ∧
      TokenLedger.Step (n.ledger route)
        ((n.next x route (.deliver before after u d status)).ledger route) := by
  obtain ⟨htype, hp, hflight, hfresh⟩ := henabled
  obtain ⟨⟨⟨status', additional⟩, hok⟩, hupdate, hverified⟩ := hregular
  obtain ⟨b', hexec⟩ : ∃ b', n.execute x route u d status true =
    (.ok (status', additional), b') := ⟨_, Prod.ext hok rfl⟩
  have hmoves : d.type.movesTokens = true := by rcases htype with h | h <;> rw [h] <;> rfl
  obtain ⟨hb', delivered, p, forwards, l, houtcome, hdelivered, hforwards, hsent, hproduced⟩ :=
    Executor.executeSigned_tokens (hx (route u)) hmoves hp (hstored (route u)) hexec
  have hfilter := sentFrom_filter hp hforwards hsent
  have hnext : n.next x route (.deliver before after u d status) =
      ⟨Function.update n.block (route u) b',
        (if delivered then before ++ after else n.inFlight) ++ l⟩ := by
    simp only [next, hexec, sent_of_ok hproduced, isDelivered, hdelivered]
  rw [hnext]
  refine ⟨stored_update _ hstored hb', ?_⟩
  -- the ledger has the transaction in flight as well
  have hledger : n.ledger route = ⟨(n.ledger route).view, before.filter (·.type.movesTokens) ++
      d.transaction :: after.filter (·.type.movesTokens)⟩ := by
    have hkept : d.transaction.type.movesTokens = true := hmoves
    simp only [ledger, hflight, List.filter_append, List.filter_cons, hkept, if_true]
  cases houtcome with
  | waits hbefore hview =>
    have hfalse : delivered = false := by
      by_contra htrue
      rw [hbefore (by simpa using htrue)] at hfresh
      cases hfresh
    rw [ledger_same _ hview, hfalse, List.filter_append,
      List.forall₂_nil_left_iff.1 hfilter, List.append_nil]
    exact .stutter
  | fails hreason hview hcredits =>
    rw [filter_of_returned hcredits] at hfilter
    rw [ledger_same _ hview, if_pos rfl, List.filter_append, List.filter_append, hledger]
    refine .sendBack hp (fun hreceivable hnone => ?_) hfilter
    exact hupdate (hreason hreceivable (hverified hnone))
  | failsLate hreject hmoved hcredits => exact absurd hreject hupdate
  | succeeds hmoved =>
    obtain ⟨v, hmove, hview⟩ := hmoved
    have hnil : p = [] := nil_of_move hmove htype
    rw [filter_of_move hmove, hnil, List.forall₂_nil_left_iff] at hfilter
    rw [hnil] at hmove
    rw [ledger_update _ hview, if_pos rfl, List.filter_append, List.filter_append, hfilter,
      List.append_nil, hledger]
    exact .receive hp hmove

/-- **Refinement.**  Every regular step of the network is a step of the ledger. -/
theorem step_refines (hstored : n.Stored x) (hstep : RegularStep x route n n') :
    n'.Stored x ∧ TokenLedger.Step (n.ledger route) (n'.ledger route) := by
  obtain ⟨e, henabled, hregular, rfl⟩ := hstep
  cases e with
  | submit u d status shouldProcess => exact submit_refines hx hstored henabled hregular
  | deliver before after u d status => exact deliver_refines hx hstored henabled hregular
  | other i b =>
    obtain ⟨hb, hview⟩ := henabled (hstored i)
    refine ⟨stored_update _ hstored hb, ?_⟩
    change TokenLedger.Step _ (Network.ledger route ⟨Function.update n.block i b, n.inFlight⟩)
    rw [ledger_same _ hview]
    exact .stutter

theorem run_refines (hstored : n.Stored x)
    (hrun : Relation.ReflTransGen (RegularStep x route) n n') :
    n'.Stored x ∧
      Relation.ReflTransGen TokenLedger.Step (n.ledger route) (n'.ledger route) := by
  induction hrun with
  | refl => exact ⟨hstored, .refl⟩
  | tail _ hstep ih =>
    obtain ⟨hstored, hledger⟩ := ih
    obtain ⟨hstored', hledger'⟩ := step_refines hx hstored hstep
    exact ⟨hstored', hledger.tail hledger'⟩

end

/-- **Conservation of tokens.**  In every state that is reached by regular steps, the amount
the issuer has issued is the sum of all balances and of all deposits and burns in flight. -/
theorem issued_eq_supply {token : Url} (hx : ∀ i, (x i).RunsTokens invalidChecksum)
    (hstored : n.Stored x) (hsound : (n.ledger route).Sound token)
    (hbalanced : (n.ledger route).Balanced token)
    (hrun : Relation.ReflTransGen (RegularStep x route) n n') :
    (n'.ledger route).issued token = (n'.ledger route).supply token :=
  (TokenLedger.balanced_of_run hsound hbalanced (run_refines hx hstored hrun).2).2

end Refinement

/-! ## A deposit into an account of the partition -/

open Executor (toy toyCrypto toyGlobals)

def coinUrl : Url := ⟨.named "mint", ["coin"]⟩

def aliceUrl : Url := ⟨.named "alice", ["coins"]⟩

def coinDeposit (w : Url) : Transaction :=
  ⟨⟨some w, 11, "", []⟩, .payload
    (.syntheticDepositTokens ⟨some ⟨aliceUrl, 5⟩, none, 0⟩ (some coinUrl) 10 false false)⟩

def coinAccounts (w : Url) : Database :=
  (((Database.empty.setMain ⟨.bvn "y", ["synthetic"]⟩
    (.syntheticLedger ⟨⟨.bvn "y", ["synthetic"]⟩, []⟩)).setMain coinUrl
    (.tokenIssuer coinUrl [⟨⟨.named "mint", ["book"]⟩, false⟩] "COIN" 0 100 none)).setMain aliceUrl
    (.tokenAccount aliceUrl [⟨⟨.named "alice", ["book"]⟩, false⟩] coinUrl 90)).setMain w
    (.tokenAccount w [⟨⟨.named "bob", ["book"]⟩, false⟩] coinUrl 0)

def coinStatus (w : Url) : TransactionStatus :=
  { TransactionStatus.new with
    txID := some (toyCrypto.id (coinDeposit w))
    code := .pending
    signers := [.unknownSigner dnUrl 0]
    sourceNetwork := some ⟨.bvn "y", []⟩
    destinationNetwork := some ⟨.bvn "y", []⟩
    sequenceNumber := 1
    gotDirectoryReceipt := true
    proof := some ⟨0, 0, 0, 0, 77, []⟩ }

def coinDatabase (w : Url) : Database :=
  { (coinAccounts w).addEntry toyCrypto.combine ⟨.bvn "y", ["anchors"]⟩ (.anchorRoot directory) 77
      false with
    transaction := fun h =>
      if h = toyCrypto.getHash (coinDeposit w) then
        { main := some ⟨some (coinDeposit w), none, none⟩, status := coinStatus w, produced := []
          signatures := fun _ => ⟨0, [⟨.ed25519, 0, 200, none⟩]⟩ }
      else if h = 200 then
        { TransactionRecord.empty with
          main := some ⟨none, some (.key ⟨.ed25519, [1], [], some dnUrl, 1, 1, .accept, 0⟩), none⟩ }
      else .empty }

def coinNetwork (w : Url) : Network Unit :=
  ⟨fun _ => ⟨1, coinDatabase w, toyGlobals, .new⟩, [coinDeposit w]⟩

def coinNode : Executor := Executor.mintNode

def coinDelivery (w : Url) : Event Unit :=
  .deliver [] [] w { Delivery.new (coinDeposit w) [] with
    sequenceNumber := 1, sourceNetwork := some ⟨.bvn "y", []⟩ } (coinStatus w)

def coinView (w u : Url) : TokenView :=
  if u = w then (some (coinUrl, 0), none)
  else if u = aliceUrl then (some (coinUrl, 90), none)
  else if u = coinUrl then (none, some 100)
  else (none, none)

section Coins

variable {w : Url}

def CoinRecipient (w : Url) : Prop :=
  w ≠ aliceUrl ∧ w ≠ coinUrl ∧ w.stringLength ≤ accountUrlMaxLength ∧
    isValidAccountPath toyCrypto.isWord w.path = true

theorem coin_stored (hw : CoinRecipient w) :
    (coinDatabase w).Stored toyCrypto ∧ ∀ u, (coinDatabase w).tokenView u = coinView w u := by
  obtain ⟨-, -, hlength, hpath⟩ := hw
  have haccounts : (coinAccounts w).Stored toyCrypto := by
    have hempty : Database.Stored toyCrypto .empty := nofun
    refine Stored.setMain (Stored.setMain (Stored.setMain (Stored.setMain hempty rfl ?_ ?_ ?_)
      rfl ?_ ?_ ?_) rfl ?_ ?_ ?_) rfl (by simp [Account.fullAuth]) hlength hpath
    all_goals decide
  have hentry : KeepsTokens toyCrypto (coinAccounts w) ((coinAccounts w).addEntry
      toyCrypto.combine ⟨.bvn "y", ["anchors"]⟩ (.anchorRoot directory) 77 false) := by
    unfold addEntry updateChain
    exact keepsTokens_updateAccount _ rfl
  have hkeeps : KeepsTokens toyCrypto (coinAccounts w) (coinDatabase w) :=
    trans_of _ hentry (keepsTokens_of_main fun _ => rfl)
  obtain ⟨hstored, hview⟩ := hkeeps haccounts
  refine ⟨hstored, fun u => ?_⟩
  rw [hview]
  unfold coinAccounts coinView
  rw [tokenView_setMain, tokenView_setMain, tokenView_setMain, tokenView_setMain]
  -- the ledger of synthetic transactions has nothing to do with tokens
  have hledger : (if u = ⟨.bvn "y", ["synthetic"]⟩ then
      ((Account.syntheticLedger ⟨⟨.bvn "y", ["synthetic"]⟩, []⟩).tokens,
        (Account.syntheticLedger ⟨⟨.bvn "y", ["synthetic"]⟩, []⟩).issued)
      else Database.empty.tokenView u) = (none, none) := by
    split <;> rfl
  rw [hledger]
  rfl

theorem coin_ledger (hw : CoinRecipient w) :
    (coinNetwork w).ledger (fun _ => ()) = ⟨coinView w, [coinDeposit w]⟩ := by
  unfold ledger
  congr 1
  funext u
  exact (coin_stored hw).2 u

theorem coin_balance (u : Url) (hu : u ≠ aliceUrl) : (coinView w u).balance coinUrl = 0 := by
  unfold coinView
  by_cases huw : u = w
  · rw [if_pos huw]
    rfl
  · rw [if_neg huw, if_neg hu]
    split <;> rfl

theorem coin_issuer (hw : CoinRecipient w) : coinView w coinUrl = (none, some 100) := by
  rw [coinView, if_neg (Ne.symm hw.2.1), if_neg (by decide), if_pos rfl]

theorem coin_alice (hw : CoinRecipient w) : coinView w aliceUrl = (some (coinUrl, 90), none) := by
  rw [coinView, if_neg (Ne.symm hw.1), if_pos rfl]

theorem coin_total (hw : CoinRecipient w) : ∑ᶠ u, (coinView w u).balance coinUrl = 90 := by
  rw [finsum_eq_single _ aliceUrl coin_balance, coin_alice hw]
  rfl

theorem coin_start (hw : CoinRecipient w) :
    (coinNetwork w).Stored (fun _ => coinNode) ∧
      ((coinNetwork w).ledger fun _ => ()).Sound coinUrl ∧
      ((coinNetwork w).ledger fun _ => ()).Balanced coinUrl := by
  rw [coin_ledger hw]
  refine ⟨fun _ => (coin_stored hw).1, ⟨⟨100, coin_issuer hw⟩, ?_, ?_⟩, ?_⟩
  · refine (Set.finite_singleton aliceUrl).subset fun u hu => ?_
    by_contra hne
    exact hu (coin_balance u hne)
  · intro t ht
    obtain rfl := List.mem_singleton.1 ht
    exact ⟨by decide, ⟨aliceUrl, 5⟩, rfl, fun _ => ⟨90, coin_alice hw⟩⟩
  · change (coinView w coinUrl).issued =
      ∑ᶠ u, (coinView w u).balance coinUrl + ([coinDeposit w].map (carried coinUrl)).sum
    rw [coin_total hw, coin_issuer hw]
    rfl

theorem coin_enabled :
    (coinNetwork w).Enabled (fun _ => coinNode) (fun _ => ()) (coinDelivery w) := by
  have hstatus : ((coinDatabase w).transaction (toyCrypto.getHash (coinDeposit w))).status =
      coinStatus w := by
    simp [coinDatabase]
  exact ⟨.inl rfl, rfl, rfl, congrArg TransactionStatus.delivered hstatus⟩

theorem coin_runs (_ : Unit) : coinNode.RunsTokens fun _ => false := fun _ _ h => h

def coinAfter (w : Url) : Network Unit :=
  (coinNetwork w).next (fun _ => coinNode) (fun _ => ()) (coinDelivery w)

def coinExecuted (w : Url) : Outcome Error (TransactionStatus × List Delivery) × Block :=
  (coinNetwork w).execute (fun _ => coinNode) (fun _ => ()) w
    { Delivery.new (coinDeposit w) [] with
      sequenceNumber := 1, sourceNetwork := some ⟨.bvn "y", []⟩ } (coinStatus w) true

end Coins

def vaultUrl : Url := ⟨.bvn "y", ["coins"]⟩

/-- The deposit into the account of the partition is credited and fails, and Alice gets her
coins back: 110 coins where 100 have been issued. -/
theorem vault_not_balanced :
    ∃ n n' : Network Unit, n.Stored (fun _ => coinNode) ∧
      (n.ledger fun _ => ()).Sound coinUrl ∧ (n.ledger fun _ => ()).Balanced coinUrl ∧
      Step (fun _ => coinNode) (fun _ => ()) n n' ∧
      (n'.ledger fun _ => ()).issued coinUrl = 100 ∧
      (n'.ledger fun _ => ()).supply coinUrl = 110 := by
  have hw : CoinRecipient vaultUrl := by
    unfold CoinRecipient
    decide
  obtain ⟨hstored, hsound, hbalanced⟩ := coin_start hw
  refine ⟨coinNetwork vaultUrl, coinAfter vaultUrl, hstored, hsound, hbalanced,
    ⟨_, coin_enabled, rfl⟩, ?_⟩
  have heval : (coinExecuted vaultUrl).1.Yields (fun r => r.1.failed = true) ∧
      (coinExecuted vaultUrl).2.batch.tokenView vaultUrl = (some (coinUrl, 10), none) ∧
      (((coinAfter vaultUrl).inFlight.filter (·.type.movesTokens)).map
        (carried coinUrl)).sum = 10 := by
    decide +kernel
  obtain ⟨hok, hvault, hflight⟩ := heval
  obtain ⟨⟨status, additional⟩, hok, -⟩ := hok.exists_ok
  obtain ⟨-, delivered, p, forwards, l, houtcome, -⟩ := Executor.executeSigned_tokens
    (coin_runs ()) rfl rfl (hstored ()) (Prod.ext hok rfl)
  have hview : ∀ w, (coinExecuted vaultUrl).2.batch.tokenView w =
      if w = vaultUrl then (some (coinUrl, 10), none)
      else ((coinNetwork vaultUrl).block ()).batch.tokenView w := by
    intro w
    split
    · rename_i hwv
      rw [hwv, hvault]
    · rename_i hwv
      exact houtcome.elsewhere hwv
  have hledger : (coinAfter vaultUrl).ledger (fun _ => ()) =
      ⟨Function.update ((coinNetwork vaultUrl).ledger fun _ => ()).view vaultUrl
        (some (coinUrl, 10), none), (coinAfter vaultUrl).inFlight.filter (·.type.movesTokens)⟩ :=
    ledger_update (coinAfter vaultUrl).inFlight hview
  rw [hledger]
  constructor
  · exact congrArg TokenView.issued (coin_issuer hw)
  · rw [TokenLedger.supply_update hsound.finite, coin_ledger hw]
    simp only [coin_total hw]
    rfl

theorem bob_issued_eq_supply :
    ∃ n' : Network Unit,
      RegularStep (fun _ => coinNode) (fun _ => ()) (coinNetwork ⟨.named "bob", ["coins"]⟩) n' ∧
      n'.inFlight.length = 0 ∧
      (n'.ledger fun _ => ()).issued coinUrl = (n'.ledger fun _ => ()).supply coinUrl := by
  have hw : CoinRecipient ⟨.named "bob", ["coins"]⟩ := by
    unfold CoinRecipient
    decide
  obtain ⟨hstored, hsound, hbalanced⟩ := coin_start hw
  have hok : (coinExecuted ⟨.named "bob", ["coins"]⟩).1.Yields (fun _ => True) := by decide +kernel
  obtain ⟨r, hok, -⟩ := hok.exists_ok
  have hstep : RegularStep (fun _ => coinNode) (fun _ => ()) (coinNetwork ⟨.named "bob", ["coins"]⟩)
      (coinAfter ⟨.named "bob", ["coins"]⟩) := by
    refine ⟨_, coin_enabled, ⟨⟨r, hok⟩, fun h => ?_, nofun⟩, rfl⟩
    exact absurd h.1 (by decide)
  refine ⟨_, hstep, by decide +kernel, ?_⟩
  exact issued_eq_supply coin_runs hstored hsound hbalanced (.single hstep)

end Network

end Accumulate
