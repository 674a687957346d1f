import Peg.Grammar.Lookup
import Peg.Main
import Peg.Proofs.Grammar.History
import Peg.Proofs.Evaluation.Adequacy
import Peg.Proofs.Evaluation.Frames
import Peg.Proofs.Evaluation.Position
import Peg.Proofs.Notation.Rereading
import Peg.Proofs.Rule.Parts
import Peg.Rule.Display
import Peg.Rule.Same
import Peg.Proofs.Evaluation.Simulation
import Peg.Proofs.Evaluation.Tiling
import Peg.Proofs.Grammar.ByName
import Peg.Proofs.Grammar.Merging
import Peg.Proofs.Evaluation.Calls
import Peg.Proofs.Grammar.LeftRecursion
import Peg.Proofs.Grammar.Family
import Peg.Proofs.Grammar.Termination
import Peg.Proofs.Evaluation.Shift
import Peg.Proofs.Grammar.Renaming
import Peg.Proofs.Grammar.Relinking
import Peg.Proofs.Grammar.Interchange
import Peg.Proofs.Notation.Layout
import Peg.Proofs.Evaluation.Repetition
import Peg.Proofs.Algebra.Choices
import Peg.Proofs.CommandLine.Projection
import Peg.Proofs.CommandLine.Depth
import Peg.Proofs.Notation.Frames
import Peg.Proofs.Notation.Concatenation
import Peg.Proofs.Notation.Classes
import Peg.Proofs.Notation.Spellings
import Peg.Proofs.Grammar.Matching
import Peg.Proofs.Grammar.Heads
import Peg.Proofs.Grammar.Defects
import Peg.Proofs.Notation.Promptness
import Peg.Proofs.Notation.Orderly
import Peg.Proofs.Evaluation.Depth
import Peg.Proofs.Grammar.EqualRuns
import Peg.Proofs.Source.LineEnds
import Peg.Proofs.Algebra.Members
