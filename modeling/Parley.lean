import Parley.Eval.Adoption
import Parley.Expr.Assembly
import Parley.Main
import Parley.Proofs.Builtin.Equality
import Parley.Proofs.Builtin.Files
import Parley.Proofs.Builtin.Json
import Parley.Proofs.Builtin.Numerals
import Parley.Proofs.Builtin.Operators
import Parley.Proofs.Builtin.Repetition
import Parley.Proofs.Eval.Capture
import Parley.Proofs.Eval.Height
import Parley.Proofs.Grammar.Blocks
import Parley.Proofs.Grammar.Continuation
import Parley.Proofs.Grammar.EndFlag
import Parley.Proofs.Grammar.Quotation
import Parley.Proofs.Grammar.Suffixes
import Parley.Proofs.Help.Wrapping
import Parley.Proofs.Service.Credentials
import Parley.Proofs.Service.Filling
import Parley.Proofs.Service.Holes
import Parley.Proofs.Service.Outcome
import Parley.Proofs.Service.Waiting
import Parley.Proofs.Session.Clearing
import Parley.Proofs.Session.Colours
import Parley.Proofs.Session.Completion
import Parley.Proofs.Session.Forms
import Parley.Proofs.Session.Inputs
import Parley.Proofs.Session.Reopening
import Parley.Proofs.Session.Splitting
import Parley.Service.Samples
