import Lingo.Main
import Lingo.Workload.Programs
import Lingo.Workload.Reading
import Lingo.Workload.Running
import Lingo.Workload.Values
import Lingo.Proofs.Grammar.Soundness
import Lingo.Proofs.Grammar.Totality
import Lingo.Proofs.Eval.Data
import Lingo.Proofs.Eval.Outcomes
import Lingo.Proofs.Eval.Callers
import Lingo.Proofs.Eval.Supplied
import Lingo.Proofs.Eval.Signals
import Lingo.Proofs.Eval.Importing
import Lingo.Proofs.Eval.Rounds
import Lingo.Proofs.Eval.Collections
import Lingo.Proofs.Eval.Reports
import Lingo.Proofs.Grammar.Sequence
import Lingo.Proofs.Grammar.Closing
import Lingo.Proofs.Eval.Returning
import Lingo.Proofs.Eval.Primes
import Lingo.Proofs.Eval.Overflow
import Lingo.Proofs.Token.Joining
import Lingo.Proofs.Text.Comparison
import Lingo.Proofs.Source.Excerpt
import Lingo.Proofs.Store.Scopes
