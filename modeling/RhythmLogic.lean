import RhythmLogic.Bindings.Text
import RhythmLogic.CommandLine.Rehearsal
import RhythmLogic.Json.Reader
import RhythmLogic.Json.Rounding
import RhythmLogic.Main
import RhythmLogic.Voice.Json
import RhythmLogic.Proofs.Goals
import RhythmLogic.Proofs.Numbers
import RhythmLogic.Proofs.Parametric
import RhythmLogic.Proofs.Readable
import RhythmLogic.Proofs.Relabelling
import RhythmLogic.Proofs.SearchComplete
import RhythmLogic.Proofs.Steady
import RhythmLogic.Proofs.Following
import RhythmLogic.Proofs.Conjunction
import RhythmLogic.Proofs.Connectives
import RhythmLogic.Proofs.Apart
import RhythmLogic.Proofs.Grammar
import RhythmLogic.Proofs.Grid
import RhythmLogic.Proofs.Sessions
import RhythmLogic.Proofs.Seam
import RhythmLogic.Proofs.Completion
import RhythmLogic.Proofs.Derived
import RhythmLogic.Proofs.Accepted
import RhythmLogic.Proofs.Printed
import RhythmLogic.Proofs.RoundTrip
import RhythmLogic.Proofs.Schedules
import RhythmLogic.Proofs.Notices
import RhythmLogic.Proofs.Limits
import RhythmLogic.Proofs.Predicates
import RhythmLogic.Proofs.Termination
import RhythmLogic.Proofs.Extension
import RhythmLogic.Proofs.Histories
import RhythmLogic.Proofs.Failures
import RhythmLogic.Proofs.Forests
import RhythmLogic.Proofs.BarLines
import RhythmLogic.Proofs.Shifts
import RhythmLogic.Proofs.JsonPrograms
import RhythmLogic.Proofs.Symmetry
import RhythmLogic.Proofs.Substitution
import RhythmLogic.Proofs.Resolved
import RhythmLogic.Proofs.Equality
import RhythmLogic.Proofs.Rhythms
import RhythmLogic.Proofs.Boundaries
import RhythmLogic.Proofs.Cues
import RhythmLogic.Proofs.Horizons
import RhythmLogic.Proofs.Velocities
import RhythmLogic.Proofs.Partition
import RhythmLogic.Proofs.FinalPeriod
import RhythmLogic.Proofs.Blame
import RhythmLogic.Proofs.Margins
import RhythmLogic.Proofs.Coherence
import RhythmLogic.Proofs.Outputs
import RhythmLogic.Proofs.Bodies
import RhythmLogic.Proofs.Beats
import RhythmLogic.Proofs.Indexes
import RhythmLogic.Proofs.Ranges
import RhythmLogic.Proofs.Visits
import RhythmLogic.Proofs.Cycles
import RhythmLogic.Proofs.Records
import RhythmLogic.Proofs.Accounts
import RhythmLogic.Proofs.Anonymous
