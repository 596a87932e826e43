import ProofRay.Engine.BatchIngress
import ProofRay.Engine.BatchReopen
import ProofRay.Engine.BatchSplit
import ProofRay.Engine.ModelRefinement
import ProofRay.Engine.Linearization
import ProofRay.Engine.ManifestCanonical
import ProofRay.Engine.SingleWriter
import ProofRay.OpenText.PurgeOrder
import ProofRay.Hdem.Hdca
import ProofRay.Attention.ModesAgree
import ProofRay.Answer.RuntimeReuse
import ProofRay.Answer.DossierOrder
import ProofRay.Evidence.Envelope
import ProofRay.Hypergraph.Alternatives
import ProofRay.Host.Lifecycle
import ProofRay.Host.Reload
import ProofRay.Engine.ReducerCalls
import ProofRay.Engine.RankIndexed
import ProofRay.Engine.BaseAgreement
import ProofRay.Engine.Sharded
import ProofRay.Engine.WalSeal
import ProofRay.Engine.Rotation
import ProofRay.Sidecar.LookupPrefix
import ProofRay.Sidecar.Sharing
import ProofRay.Sidecar.ExactSum
import ProofRay.Memory.AuditView
import ProofRay.Memory.Ledger
import ProofRay.Answer.Conformal
import ProofRay.Evidence.SnippetPack
import ProofRay.Lexicon.Lookup
import ProofRay.Chat.RewriteGuard
import ProofRay.Recall.Conversational
import ProofRay.Connectors.Preview
import ProofRay.Connectors.SyncOutbox
import ProofRay.Api.AnswerStore
import ProofRay.Api.RateLimit
import ProofRay.Engine.CoverageLaw
