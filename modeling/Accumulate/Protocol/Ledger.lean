import Accumulate.Protocol.Account

/-!
# Exchange ledgers

`TransactionExchangeLedger` of `protocol/ledger.go`: the sequence numbers received
from and delivered for one partition, and the transactions that wait for their
turn.  Sequence numbers are 64-bit numbers in the source; a difference that would
be negative there wraps around to a length no slice can have, and a gap between two
numbers may be such a length as well.  `limit` is the largest length of a slice of
transaction IDs that can be allocated.
-/

namespace Accumulate.Protocol
namespace TransactionExchangeLedger

open Library

def add (limit : Nat) (s : TransactionExchangeLedger) (delivered : Bool) (sequenceNumber : Nat)
    (txid : TxID) : Outcome Error (TransactionExchangeLedger × Bool) :=
  let dirty := decide (s.received < sequenceNumber)
  let s := { s with received := max s.received sequenceNumber }
  if delivered then
    .ok ({ s with delivered := max s.delivered sequenceNumber, pending := s.pending.tail },
      dirty || s.delivered < sequenceNumber || !s.pending.isEmpty)
  else
    let n := s.received - s.delivered - s.pending.length
    if s.received < s.delivered + s.pending.length ∨ n > 0 ∧ limit < s.pending.length + n then
      .panic "growslice: len out of range"
    else
      let pending := s.pending ++ List.replicate n none
      if sequenceNumber ≤ s.delivered then .panic "already delivered"
      else
        match pending[sequenceNumber - s.delivered - 1]? with
        | none => .panic "index out of range"
        | some (some _) => .ok ({ s with pending := pending }, dirty || n > 0)
        | some none =>
          .ok ({ s with
            pending := pending.set (sequenceNumber - s.delivered - 1) (some txid) }, true)

def get (s : TransactionExchangeLedger) (sequenceNumber : Nat) : Outcome Error (Option TxID) :=
  if sequenceNumber ≤ s.delivered ∨ s.received < sequenceNumber then .ok none
  else
    match s.pending[sequenceNumber - s.delivered - 1]? with
    | none => .panic "index out of range"
    | some txid => .ok txid

end TransactionExchangeLedger

def partitionLedger (exchange : List TransactionExchangeLedger) (u : Url) :
    TransactionExchangeLedger :=
  (exchange.find? (·.url = u)).getD ⟨u, 0, 0, 0, 0, []⟩

/-- Store the exchange with a partition.  The source keeps the list in URL order;
only the entry of a given partition is ever looked for. -/
def setPartitionLedger (exchange : List TransactionExchangeLedger)
    (l : TransactionExchangeLedger) : List TransactionExchangeLedger :=
  l :: exchange.filter (·.url ≠ l.url)

def Account.exchange : Account → Option (List TransactionExchangeLedger)
  | .syntheticLedger l => some l.exchange
  | .anchorLedger l => some l.exchange
  | _ => none

def Account.withExchange (a : Account) (exchange : List TransactionExchangeLedger) : Account :=
  match a with
  | .syntheticLedger l => .syntheticLedger { l with exchange := exchange }
  | .anchorLedger l => .anchorLedger { l with exchange := exchange }
  | a => a

@[simp] theorem Account.withExchange_url (a : Account) (e : List TransactionExchangeLedger) :
    (a.withExchange e).url = a.url := by
  cases a <;> rfl

end Accumulate.Protocol
