import Accumulate.Block.Redelivery
import Accumulate.Block.Repetition
import Accumulate.Block.TokenSupply
import Accumulate.Block.Waiting
import Accumulate.Block.AnchorVotes
import Accumulate.Block.Replay
import Accumulate.Block.Initiator
import Accumulate.Database.BptTrie
import Accumulate.Protocol.ExchangeRun
import Accumulate.Routing.Termination
import Accumulate.Chain.Normalize
import Accumulate.Snapshot.Heads
import Accumulate.UrlText.RoundTrip
import Accumulate.Indexing.Chain
import Accumulate.Database.SignatureRecord
import Accumulate.Block.Proofs
import Accumulate.Chain.Delegates
import Accumulate.Smt.ReceiptList
import Accumulate.Encoding.Duration
import Accumulate.Record.Counted
import Accumulate.Core.SortUtil
import Accumulate.Core.Validators
import Accumulate.Chain.KeyPageEntries
