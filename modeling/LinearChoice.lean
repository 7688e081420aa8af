import LinearChoice.Backend.Disrupted
import LinearChoice.Backend.Simplex
import LinearChoice.ChoiceSystem
import LinearChoice.Report.Text
import LinearChoice.Scalar.Extended
import LinearChoice.Scalar.Rational
import LinearChoice.Simplex.Edit
import LinearChoice.Table.Lemmas
import LinearChoice.Proofs.Simplex.Session
import LinearChoice.Proofs.ChoiceSystem.FirstChoice
import LinearChoice.Proofs.ChoiceSystem.Ledger
import LinearChoice.Proofs.ChoiceSystem.Values
import LinearChoice.Proofs.Simplex.Optimum
import LinearChoice.Proofs.Extended
import LinearChoice.Proofs.Pruner.Containment
import LinearChoice.Proofs.Pruner.Soundness
import LinearChoice.Proofs.Backend.Replay
import LinearChoice.Proofs.Search.Replay
import LinearChoice.Proofs.ChoiceSystem.Verdicts
import LinearChoice.Proofs.Simplex.Feasibility
import LinearChoice.Proofs.Simplex.Refusal
import LinearChoice.Proofs.ChoiceSystem.Tally
import LinearChoice.Proofs.ChoiceSystem.Limit
import LinearChoice.Proofs.ChoiceSystem.History
import LinearChoice.Proofs.ChoiceSystem.Modes
import LinearChoice.Proofs.Simplex.Ghosts
import LinearChoice.Proofs.Traces
import LinearChoice.Proofs.Search.Standing
import LinearChoice.Proofs.Search.Rounds
import LinearChoice.Proofs.ChoiceSystem.Standing
import LinearChoice.Proofs.ChoiceSystem.Conflicts
import LinearChoice.Proofs.ChoiceSystem.Discarded
import LinearChoice.Proofs.Simplex.EditSession
import LinearChoice.Proofs.ChoiceSystem.Origin
import LinearChoice.Proofs.Search.Effort
import LinearChoice.Proofs.ChoiceSystem.Balance
import LinearChoice.Proofs.Simplex.Termination
import LinearChoice.Proofs.Pruner.Bookmarks
import LinearChoice.Proofs.ChoiceSystem.Mistakes
import LinearChoice.Proofs.Expression.Vanishing
import LinearChoice.Proofs.Pruner.Tightest
import LinearChoice.Proofs.Expression.Linearity
import LinearChoice.Proofs.Simplex.EditRecords
import LinearChoice.Proofs.Registry.Enrolment
import LinearChoice.Proofs.Simplex.Goal
import LinearChoice.Proofs.Simplex.Kinds
import LinearChoice.Proofs.Pruner.Projection
import LinearChoice.Proofs.Pruner.Emptiness
import LinearChoice.Proofs.Simplex.Fixings
import LinearChoice.Proofs.Simplex.Layers
import LinearChoice.Proofs.Backend.Exact
