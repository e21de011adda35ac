import Lookahead.Command.Run
import Lookahead.Main
import Lookahead.Proofs.Grammar.Change
import Lookahead.Proofs.Grammar.Built
import Lookahead.Proofs.Grammar.Derivation
import Lookahead.Proofs.Prediction.SymbolSet
import Lookahead.Proofs.Prediction.Stabilize
import Lookahead.Proofs.Prediction.First
import Lookahead.Proofs.Prediction.Follow
import Lookahead.Proofs.Prediction.Table
import Lookahead.Proofs.Machine.Step
import Lookahead.Proofs.Machine.Guard
import Lookahead.Proofs.Machine.Correctness
import Lookahead.Proofs.Machine.Trail
import Lookahead.Proofs.Machine.Sentential
import Lookahead.Proofs.Prediction.Opening
import Lookahead.Proofs.Machine.Acyclic
import Lookahead.Proofs.Machine.FirstFault
import Lookahead.Proofs.Machine.Portions
import Lookahead.Proofs.Imperative.Grammar
import Lookahead.Proofs.Machine.Resumption
import Lookahead.Proofs.Scan.Chunks
import Lookahead.Proofs.Imperative.Compile
import Lookahead.Proofs.Grammar.Interpretation
import Lookahead.Proofs.Machine.Observation
import Lookahead.Proofs.Imperative.Syntax
import Lookahead.Proofs.Imperative.Checker
import Lookahead.Proofs.Scan.Pulls
import Lookahead.Proofs.Machine.Lockstep
import Lookahead.Proofs.Machine.Noninterference
import Lookahead.Proofs.Grammar.Renaming
import Lookahead.Proofs.Prediction.Renaming
import Lookahead.Proofs.Machine.Renaming
import Lookahead.Proofs.Machine.ProductionOrder
import Lookahead.Proofs.Grammar.DeclaredFirst
import Lookahead.Proofs.Machine.DeclarationOrder
import Lookahead.Proofs.Grammar.Edits
import Lookahead.Grammar.Builder
import Lookahead.Proofs.Grammar.Builder
import Lookahead.Proofs.Machine.History
import Lookahead.Proofs.Prediction.ConflictLog
import Lookahead.Proofs.Machine.Resolution
import Lookahead.Proofs.Prediction.Rivals
import Lookahead.Proofs.Machine.Acceptance
import Lookahead.Proofs.Prediction.Growth
import Lookahead.Machine.Feed
import Lookahead.Proofs.Machine.Feed
import Lookahead.Proofs.Scan.Places
import Lookahead.Proofs.Pattern.Matches
import Lookahead.Proofs.Pattern.Search
import Lookahead.Proofs.Pattern.Reading
import Lookahead.Proofs.Scan.Anchored
import Lookahead.Proofs.Pattern.Residue
import Lookahead.Proofs.Scan.Separation
import Lookahead.Proofs.Imperative.Spacing
import Lookahead.NameTable
import Lookahead.Proofs.NameTable
import Lookahead.Proofs.Prediction.Rounds
import Lookahead.Report.Reading
import Lookahead.Proofs.Imperative.Reports
