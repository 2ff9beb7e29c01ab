import GoXrpl.Batch.Modes
import GoXrpl.Consensus.Agreement
import GoXrpl.Disputes.Votes
import GoXrpl.Engine.Claimed
import GoXrpl.Engine.Conservation
import GoXrpl.Keylet.Identity
import GoXrpl.LedgerTrie.Preferred
import GoXrpl.MPT.Supply
import GoXrpl.Manifest.Linearization
import GoXrpl.Number.NormalForm
import GoXrpl.OpenLedger.Canonical
import GoXrpl.Relay.Squelch
import GoXrpl.Replay.Derived
import GoXrpl.SHAMap.Patch
import GoXrpl.State.DirChain
import GoXrpl.TxQueue.Attempts
import GoXrpl.Validations.Reporting
import GoXrpl.Base58.Bijection
import GoXrpl.Amount.Products
import GoXrpl.Amount.Quality
import GoXrpl.SkipList.Adoption
import GoXrpl.ValidatorList.Promotion
import GoXrpl.Membudget.Wakeup
