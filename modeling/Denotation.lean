import Denotation.CommandLine.Basic
import Denotation.CommandLine.Rehearsal
import Denotation.Execution.Evaluator
import Denotation.Execution.Interpreter
import Denotation.Main
import Denotation.Session.Completion
import Denotation.Session.Transcript
import Denotation.Settings.Loading
import Denotation.Simple.Lookahead
import Denotation.Simple.Parsing
import Denotation.Target.Rendering
import Denotation.Proofs.Characters
import Denotation.Proofs.Quotation
import Denotation.Proofs.Decimals
import Denotation.Proofs.Writing
import Denotation.Proofs.Environments
import Denotation.Proofs.Gaps
import Denotation.Proofs.Rendered
import Denotation.Proofs.UniqueReading
import Denotation.Proofs.Execution
import Denotation.Proofs.Compilation
import Denotation.Proofs.Sessions
import Denotation.Proofs.Requests
import Denotation.Proofs.Simulation
import Denotation.Proofs.Grammar
import Denotation.Proofs.Parsing
import Denotation.Proofs.Spelling
import Denotation.Proofs.Reprinting
import Denotation.Proofs.Caps
import Denotation.Proofs.Lookahead
import Denotation.Proofs.JsonReading
import Denotation.Proofs.Interchange
import Denotation.Proofs.Descent
import Denotation.Proofs.ParserDescent
import Denotation.Proofs.Viability
import Denotation.Proofs.Failures
import Denotation.Proofs.Segmentation
import Denotation.Proofs.Variables
import Denotation.Proofs.Formatting
import Denotation.Proofs.Noninterference
import Denotation.Proofs.Verbatim
import Denotation.Proofs.Loops
import Denotation.Proofs.FormGrammar
import Denotation.Proofs.Places
import Denotation.Proofs.Sequencing
import Denotation.Proofs.Lines
import Denotation.Proofs.Validation
import Denotation.Proofs.Words
import Denotation.Proofs.Layout
import Denotation.Proofs.Outputs
import Denotation.Proofs.FreeNames
import Denotation.Proofs.Interpreters
import Denotation.Proofs.Matching
import Denotation.Proofs.Recovery
import Denotation.Proofs.LexicalLoops
import Denotation.Proofs.Arithmetic
import Denotation.Proofs.Numerals
import Denotation.Proofs.Answers
import Denotation.Proofs.NumberTokens
import Denotation.Proofs.Separators
