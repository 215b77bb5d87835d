import PauseGoal.ByteSize
import PauseGoal.Clock
import PauseGoal.CostModel
import PauseGoal.Decimal.Double
import PauseGoal.Decimal.Places
import PauseGoal.Decimal.Shortest
import PauseGoal.Fault
import PauseGoal.Heap
import PauseGoal.Journal
import PauseGoal.Log
import PauseGoal.Marking.Length
import PauseGoal.Marking.Phases
import PauseGoal.Marking.Request
import PauseGoal.Marking.Threshold
import PauseGoal.OldRegions.Candidates
import PauseGoal.OldRegions.Selection
import PauseGoal.Pause.Breakdown
import PauseGoal.Pause.Kind
import PauseGoal.Pause.Ledger
import PauseGoal.Pause.Record
import PauseGoal.Percent
import PauseGoal.Policy.Concurrent
import PauseGoal.Policy.FullCollection
import PauseGoal.Policy.MarkingStart
import PauseGoal.Policy.Mixed
import PauseGoal.Policy.Pauses
import PauseGoal.Policy.Prediction
import PauseGoal.Policy.Refinement
import PauseGoal.Policy.Start
import PauseGoal.Policy.State
import PauseGoal.Policy.Statistics
import PauseGoal.Policy.Survivors
import PauseGoal.Policy.YoungLength
import PauseGoal.Region
import PauseGoal.Sample.Predictor
import PauseGoal.Sample.Window
import PauseGoal.Scalar
import PauseGoal.Settings.Basic
import PauseGoal.Settings.Error
import PauseGoal.Survival
import PauseGoal.Tenuring
import PauseGoal.Utilization
import PauseGoal.Word
import PauseGoal.Young.Forecast
import PauseGoal.Young.Sizer
import PauseGoal.Young.Target
import PauseGoal.Proofs.Calm
import PauseGoal.Proofs.Frame
import PauseGoal.Proofs.Request
import PauseGoal.Proofs.Cycle
import PauseGoal.Proofs.PauseEnd
import PauseGoal.Proofs.CandidateLifecycle
import PauseGoal.Proofs.CycleOverlap
import PauseGoal.Proofs.MixedPhase
import PauseGoal.Proofs.LeastDelay
import PauseGoal.Proofs.RequestBalance
import PauseGoal.Proofs.MarkingSamples
import PauseGoal.Proofs.AllocationSamples
import PauseGoal.Proofs.Contracts
import PauseGoal.Proofs.YoungBounds
import PauseGoal.Proofs.YoungLength
import PauseGoal.Proofs.DoubleBounds
import PauseGoal.Proofs.SizerRules
import PauseGoal.Proofs.Startup
import PauseGoal.Proofs.ThresholdLessons
import PauseGoal.Proofs.Operations
import PauseGoal.Proofs.YoungPlan
import PauseGoal.Proofs.YoungRuns
import PauseGoal.Proofs.YoungSearch
import PauseGoal.Proofs.YoungEnvelope
import PauseGoal.Proofs.FixedLength
import PauseGoal.Proofs.Register
import PauseGoal.Proofs.Traces
import PauseGoal.Proofs.PauseTotals
import PauseGoal.Proofs.AgeTables
import PauseGoal.Proofs.TenuringRuns
import PauseGoal.Proofs.RegionAges
import PauseGoal.Proofs.RegionSamples
import PauseGoal.Proofs.ExactReals
import PauseGoal.Proofs.SurvivalForecast
import PauseGoal.Proofs.ForecastRuns
import PauseGoal.Proofs.CandidateBytes
import PauseGoal.Proofs.OldSelection
import PauseGoal.Proofs.SelectionGrowth
import PauseGoal.Proofs.EdenFit
import PauseGoal.Proofs.StricterPrediction
import PauseGoal.Proofs.ThresholdNeed
import PauseGoal.Proofs.PrunedQueue
import PauseGoal.Proofs.StartedOver
import PauseGoal.Proofs.CapacityCut
import PauseGoal.Proofs.SizerResizes
import PauseGoal.Proofs.Alike
import PauseGoal.Proofs.Remeasured
import PauseGoal.Proofs.FailedPause
import PauseGoal.Proofs.SampleTotals
import PauseGoal.Proofs.DecayingStatistics
import PauseGoal.Proofs.CardTime
import PauseGoal.Proofs.PauseFrequency
import PauseGoal.Proofs.Revisions
import PauseGoal.Proofs.ResizedHeap
import PauseGoal.Proofs.DoubleRounding
import PauseGoal.Proofs.RoundedShares
