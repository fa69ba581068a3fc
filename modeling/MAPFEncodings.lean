import MAPFEncodings.Literals.Integers
import MAPFEncodings.Monosat.Pairing
import MAPFEncodings.Monosat.Redundancy
import MAPFEncodings.Monosat.ShiftExactness
import MAPFEncodings.Proofs.AgentCalls
import MAPFEncodings.Proofs.BreadthFirst
import MAPFEncodings.Proofs.EncodingNames
import MAPFEncodings.Proofs.InputFiles
import MAPFEncodings.Proofs.Lateness
import MAPFEncodings.Proofs.Reports
import MAPFEncodings.Proofs.ShiftTimes
import MAPFEncodings.Proofs.UsefulPositions
import MAPFEncodings.Runs.Checkpoints
import MAPFEncodings.Runs.MonosatCalls
import MAPFEncodings.Runs.Reuse
import MAPFEncodings.Runs.Sessions
import MAPFEncodings.Runs.SolverErrors
import MAPFEncodings.Runs.Statistics
import MAPFEncodings.Soundness.Avoidance
import MAPFEncodings.Soundness.Leaving
