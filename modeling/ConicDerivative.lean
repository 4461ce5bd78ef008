import ConicDerivative.FiniteDifference
import ConicDerivative.RandomFill
import ConicDerivative.RandomProgram
import ConicDerivative.SolveBatch
import ConicDerivative.Proofs.ConeMaps
import ConicDerivative.Proofs.Outcomes
import ConicDerivative.Proofs.Tiling
import ConicDerivative.Proofs.ProductDerivatives
import ConicDerivative.Proofs.FirmDerivatives
import ConicDerivative.Proofs.ExactElimination
import ConicDerivative.Proofs.ExactSolvers
import ConicDerivative.Proofs.JacobianForms
import ConicDerivative.Proofs.AdjointIdentity
import ConicDerivative.Proofs.LinearizedOptimality
import ConicDerivative.Proofs.SessionCache
import ConicDerivative.Proofs.ConeProducts
import ConicDerivative.Proofs.SelectedRows
import ConicDerivative.Proofs.OptimalPairs
import ConicDerivative.Proofs.UpperTriangles
import ConicDerivative.Proofs.TableBlocks
import ConicDerivative.Proofs.FreeRows
import ConicDerivative.Proofs.Consultations
import ConicDerivative.Proofs.SolverAnswers
import ConicDerivative.Proofs.EquationSplit
import ConicDerivative.Proofs.UpperRows
import ConicDerivative.Proofs.SolverSoundness
import ConicDerivative.Proofs.Regularity
import ConicDerivative.Proofs.OptimalPoints
import ConicDerivative.Proofs.PolyhedralRows
import ConicDerivative.Proofs.GivenChanges
import ConicDerivative.Proofs.ScalingLaws
import ConicDerivative.Proofs.EnvelopeLaws
import ConicDerivative.Proofs.PolyhedralExactness
import ConicDerivative.Proofs.PackedSizes
import ConicDerivative.Proofs.AcceptedSizes
import ConicDerivative.Proofs.SystemForms
import ConicDerivative.Proofs.StartingPoints
import ConicDerivative.Proofs.ReducedLayouts
import ConicDerivative.Proofs.SentPrograms
import ConicDerivative.Proofs.SolverCalls
import ConicDerivative.Proofs.SolverRefusals
import ConicDerivative.Proofs.ConeMembers
import ConicDerivative.Proofs.ConeProjections
import ConicDerivative.Proofs.NearestPoints
import ConicDerivative.Proofs.DrawnPrograms
import ConicDerivative.Proofs.SufficientChecks
import ConicDerivative.Proofs.MergedTables
import ConicDerivative.Proofs.OrderedBlocks
import ConicDerivative.Proofs.UniquePoints
import ConicDerivative.Proofs.CentralDifferences
import ConicDerivative.Proofs.SteadySolvers
import ConicDerivative.Proofs.BatchRuns
import ConicDerivative.Proofs.BatchAnswers
import ConicDerivative.Proofs.BatchLengths
import ConicDerivative.Proofs.JoinedBlocks
import ConicDerivative.Proofs.RereadTables
import ConicDerivative.Proofs.TableDimensions
import ConicDerivative.Proofs.AlikeTables
import ConicDerivative.Proofs.ShapeFaults
import ConicDerivative.Proofs.RequestsInTurn
import ConicDerivative.Proofs.ConsistentDerivatives
import ConicDerivative.Proofs.GuardedNumbers
import ConicDerivative.Proofs.GuardedDerivatives
import ConicDerivative.Proofs.EigenChoices
import ConicDerivative.Proofs.FrechetDerivatives
import ConicDerivative.Proofs.SecondOrderDerivatives
import ConicDerivative.Proofs.SpectralDerivatives
import ConicDerivative.Proofs.SolverRuns
import ConicDerivative.Proofs.TableLayouts
import ConicDerivative.Proofs.TriangularFactors
import ConicDerivative.Proofs.DirectSolvers
import ConicDerivative.Proofs.DirectMethods
import ConicDerivative.Proofs.FirstSteps
import ConicDerivative.Proofs.ResidualChecks
import ConicDerivative.Proofs.FirstDraws
import ConicDerivative.Proofs.RankProbes
import ConicDerivative.Proofs.JoinedProducts
import ConicDerivative.Proofs.RewrittenTables
import ConicDerivative.Proofs.TilingChecks
import ConicDerivative.Proofs.DoubleSums
import ConicDerivative.Proofs.ForeignKeys
import ConicDerivative.Proofs.SummedEntries
import ConicDerivative.Proofs.CanonicalStores
import ConicDerivative.Proofs.BandDistances
import ConicDerivative.Proofs.InaccurateAnswers
import ConicDerivative.Proofs.KernelDimensions
import ConicDerivative.Proofs.ConditionCounts
import ConicDerivative.Proofs.UpperColumns
import ConicDerivative.Proofs.RoundedSizes
import ConicDerivative.Proofs.DiagonalBlocks
