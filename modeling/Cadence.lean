import Cadence.Driver.Handle
import Cadence.Recording
import Cadence.Scenario
import Cadence.Proofs.Cancellation
import Cadence.Proofs.OrRun
import Cadence.Proofs.RepeatRun
import Cadence.Proofs.RetryRun
import Cadence.Proofs.AndRun
import Cadence.Proofs.PipeRun
import Cadence.Proofs.AndThenRun
import Cadence.Proofs.Persistence
import Cadence.Proofs.ThreeWay
import Cadence.Proofs.AndThenAssoc
import Cadence.Proofs.PresetRetry
import Cadence.Proofs.Growth
import Cadence.Proofs.RunLog
import Cadence.Proofs.SharedSource
import Cadence.Proofs.JitteredStep
import Cadence.Proofs.FoldRun
import Cadence.Proofs.Interception
import Cadence.Proofs.UnaryRun
import Cadence.Proofs.Emission
import Cadence.Proofs.RangeJitter
