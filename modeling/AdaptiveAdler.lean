import AdaptiveAdler.Proofs.History
import AdaptiveAdler.Proofs.Registers
import AdaptiveAdler.Proofs.Boundaries
import AdaptiveAdler.Proofs.ClosedForm
import AdaptiveAdler.Proofs.Grouping
import AdaptiveAdler.Proofs.Choice
import AdaptiveAdler.Proofs.Corruption
import AdaptiveAdler.Proofs.Window
import AdaptiveAdler.Proofs.Coherence
import AdaptiveAdler.Proofs.Inventories
import AdaptiveAdler.Proofs.Detection
import AdaptiveAdler.Proofs.Explanation
import AdaptiveAdler.Proofs.Freestanding
import AdaptiveAdler.Proofs.SelfChecks
import AdaptiveAdler.Proofs.Reporting
import AdaptiveAdler.Proofs.Deferral
import AdaptiveAdler.Proofs.CounterBounds
import AdaptiveAdler.Proofs.ColumnSums
import AdaptiveAdler.Proofs.Cancellation
import AdaptiveAdler.Proofs.FirstMatch
import AdaptiveAdler.Proofs.Binding
import AdaptiveAdler.Proofs.Cells
import AdaptiveAdler.Proofs.Settings
import AdaptiveAdler.Proofs.Identity
import AdaptiveAdler.Proofs.DeferralBound
import AdaptiveAdler.Proofs.Folds
