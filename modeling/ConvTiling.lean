import ConvTiling.Accelerator
import ConvTiling.Arith.Checked
import ConvTiling.Arith.Division
import ConvTiling.Arith.Primes
import ConvTiling.Attempt
import ConvTiling.Nest.Axis
import ConvTiling.Nest.Basic
import ConvTiling.Nest.Error
import ConvTiling.Nest.Extents
import ConvTiling.Nest.Layer
import ConvTiling.Nest.Level
import ConvTiling.Nest.Order
import ConvTiling.Nest.TextForm
import ConvTiling.Nest.Tiling
import ConvTiling.Proofs.AdjointLengths
import ConvTiling.Proofs.Answers
import ConvTiling.Proofs.Arranging
import ConvTiling.Proofs.ArrayUse
import ConvTiling.Proofs.Best
import ConvTiling.Proofs.CommonDivisors
import ConvTiling.Proofs.Costs
import ConvTiling.Proofs.Covering
import ConvTiling.Proofs.DominantLoop
import ConvTiling.Proofs.Endings
import ConvTiling.Proofs.Factorization
import ConvTiling.Proofs.FaultFree
import ConvTiling.Proofs.Finishing
import ConvTiling.Proofs.FinishingTwice
import ConvTiling.Proofs.FirstCandidate
import ConvTiling.Proofs.Gathering
import ConvTiling.Proofs.GreedyRemoval
import ConvTiling.Proofs.HeldInput
import ConvTiling.Proofs.Implied
import ConvTiling.Proofs.KeptAxes
import ConvTiling.Proofs.LargerBuffers
import ConvTiling.Proofs.LargerTiles
import ConvTiling.Proofs.LayerAlone
import ConvTiling.Proofs.Leftover
import ConvTiling.Proofs.Lengths
import ConvTiling.Proofs.Moderate
import ConvTiling.Proofs.Nesting
import ConvTiling.Proofs.Numbering
import ConvTiling.Proofs.OrderEdits
import ConvTiling.Proofs.OrderText
import ConvTiling.Proofs.PrimeFactors
import ConvTiling.Proofs.Products
import ConvTiling.Proofs.Refusals
import ConvTiling.Proofs.Reloading
import ConvTiling.Proofs.Removal
import ConvTiling.Proofs.Reports
import ConvTiling.Proofs.Residency
import ConvTiling.Proofs.ScoreOrder
import ConvTiling.Proofs.SeedShares
import ConvTiling.Proofs.Seeding
import ConvTiling.Proofs.Selection
import ConvTiling.Proofs.Sharing
import ConvTiling.Proofs.SmallerTiles
import ConvTiling.Proofs.Stages
import ConvTiling.Proofs.TextRoundTrip
import ConvTiling.Proofs.TileSpace
import ConvTiling.Proofs.TilingText
import ConvTiling.Proofs.TurnedInput
import ConvTiling.Proofs.TurnedTraffic
import ConvTiling.Proofs.Turning
import ConvTiling.Proofs.Unrolling
import ConvTiling.Proofs.WholeKernel
import ConvTiling.Proofs.WholeLayer
import ConvTiling.Schedule.Archive
import ConvTiling.Schedule.Candidates
import ConvTiling.Schedule.Dataflow
import ConvTiling.Schedule.Error
import ConvTiling.Schedule.Handout
import ConvTiling.Schedule.LayerSchedule
import ConvTiling.Schedule.LoopRemoval
import ConvTiling.Schedule.Memory
import ConvTiling.Schedule.Options
import ConvTiling.Schedule.Score
import ConvTiling.Schedule.Search
import ConvTiling.Schedule.Seed
import ConvTiling.Schedule.Span
import ConvTiling.Schedule.TileSpace
import ConvTiling.Schedule.Traffic
import ConvTiling.Text.Decimal
import ConvTiling.Text.Graphic
import ConvTiling.Text.Quoted
import ConvTiling.Text.Words
