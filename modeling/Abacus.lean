import Abacus.Main
import Abacus.Proofs.Expr.Value
import Abacus.Proofs.Program.Agreement
import Abacus.Proofs.Expr.Reading
import Abacus.Proofs.Expr.Climbing
import Abacus.Proofs.Expr.Trace
import Abacus.Proofs.Token.Tiling
import Abacus.Proofs.Token.Seam
import Abacus.Proofs.Token.Driving
import Abacus.Proofs.Source.Acceptance
import Abacus.Proofs.Expr.Tally
import Abacus.Proofs.Source.Interpretation
import Abacus.Proofs.Source.Target
import Abacus.Proofs.Source.Line
import Abacus.Proofs.Session.Script
import Abacus.Proofs.Source.Caret
import Abacus.Proofs.Source.Lookup
import Abacus.Proofs.Expr.Conservation
import Abacus.Proofs.Expr.Parallel
import Abacus.Proofs.Expr.Sameness
import Abacus.Proofs.Program.Parallel
import Abacus.Proofs.Source.Layout
import Abacus.Proofs.Numeral.Writing
import Abacus.Proofs.Expr.Exact
import Abacus.Proofs.Program.Sequence
import Abacus.Proofs.Session.Answer
import Abacus.Proofs.Text.Encoded
import Abacus.Proofs.Command
import Abacus.Proofs.Expr.Outcome
import Abacus.Proofs.Expr.Readability
import Abacus.Proofs.Expr.Outline
import Abacus.Proofs.Source.Canonical
import Abacus.Proofs.Program.Listing
