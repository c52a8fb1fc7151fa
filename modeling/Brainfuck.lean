import Brainfuck.Block
import Brainfuck.Command.Serve
import Brainfuck.Json.Writer
import Brainfuck.Machine.Trace
import Brainfuck.Main
import Brainfuck.Proofs.History
import Brainfuck.Proofs.Options
import Brainfuck.Service
import Brainfuck.Proofs.Batches
import Brainfuck.Proofs.Shortage
import Brainfuck.Proofs.Bodies
import Brainfuck.Proofs.Answers
import Brainfuck.Proofs.Agreement
import Brainfuck.Proofs.Handling
import Brainfuck.Proofs.Blame
import Brainfuck.Proofs.NormalForms
import Brainfuck.Proofs.OneShot
import Brainfuck.Proofs.Convergence
import Brainfuck.Proofs.Operations
import Brainfuck.Proofs.Symmetry
import Brainfuck.Proofs.Widening
import Brainfuck.Proofs.Brevity
import Brainfuck.Proofs.Pairing
import Brainfuck.Proofs.LinearLoops
import Brainfuck.Proofs.LoopExits
import Brainfuck.Proofs.Residues
import Brainfuck.Proofs.Verdicts
import Brainfuck.Proofs.MaximalRuns
import Brainfuck.Proofs.BackwardJumps
import Brainfuck.Proofs.Echo
import Brainfuck.Proofs.Windows
