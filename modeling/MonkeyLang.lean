import MonkeyLang.Main
import MonkeyLang.Node.Render
import MonkeyLang.Program
import MonkeyLang.Session
import MonkeyLang.Proofs.Syntax.CleanRun
import MonkeyLang.Proofs.Syntax.Derivation
import MonkeyLang.Proofs.Syntax.Recognition
import MonkeyLang.Proofs.Syntax.StatementReading
import MonkeyLang.Proofs.Syntax.ExpressionReading
import MonkeyLang.Proofs.Lexing.Supply
import MonkeyLang.Proofs.Syntax.Acceptance
import MonkeyLang.Proofs.Lexing.Layout
import MonkeyLang.Proofs.Syntax.OperatorChain
import MonkeyLang.Proofs.Syntax.Relocation
import MonkeyLang.Proofs.Syntax.RelocatedParsing
import MonkeyLang.Proofs.Tree.Legible
import MonkeyLang.Proofs.Tree.StructuralText
import MonkeyLang.Proofs.Lexing.WrittenText
import MonkeyLang.Proofs.Syntax.RoundTrip
import MonkeyLang.Proofs.Tree.Slots
import MonkeyLang.Proofs.Syntax.Trace
import MonkeyLang.Proofs.Syntax.TracedParsing
import MonkeyLang.Proofs.Syntax.FaultCount
import MonkeyLang.Proofs.Syntax.Absence
import MonkeyLang.Proofs.Lexing.Ascent
import MonkeyLang.Proofs.Syntax.FaultOrder
import MonkeyLang.Proofs.Syntax.TokenUse
import MonkeyLang.Proofs.Lexing.Juncture
import MonkeyLang.Proofs.Lexing.Extent
import MonkeyLang.Proofs.Syntax.LayoutIndependence
import MonkeyLang.Proofs.Lexing.Shift
import MonkeyLang.Proofs.Syntax.Extension
import MonkeyLang.Proofs.Syntax.Concatenation
import MonkeyLang.Proofs.Tree.Subtrees
import MonkeyLang.Proofs.Syntax.Nesting
import MonkeyLang.Proofs.Syntax.Confinement
import MonkeyLang.Proofs.Syntax.BlockExtent
import MonkeyLang.Proofs.Registry.Allowance
import MonkeyLang.Proofs.Registry.Fitting
import MonkeyLang.Proofs.Registry.RuleByRule
import MonkeyLang.Proofs.Registry.DocumentedForm
import MonkeyLang.Proofs.Registry.Shape
import MonkeyLang.Proofs.Registry.Checks
import MonkeyLang.Proofs.Registry.Conformance
import MonkeyLang.Proofs.Tree.ForeignObjects
import MonkeyLang.Proofs.Session.Holding
import MonkeyLang.Proofs.Session.History
import MonkeyLang.Proofs.Session.Effect
import MonkeyLang.Proofs.Session.SharedLexer
import MonkeyLang.Proofs.Session.Reply
import MonkeyLang.Proofs.Syntax.MeteredGrammar
import MonkeyLang.Proofs.Syntax.MeteredParsing
import MonkeyLang.Proofs.Session.WholeText
import MonkeyLang.Proofs.Session.Independence
import MonkeyLang.Proofs.Lexing.Placement
import MonkeyLang.Proofs.Syntax.Floor
import MonkeyLang.Proofs.Tree.WellFormed
import MonkeyLang.Proofs.Syntax.Guarantee
import MonkeyLang.Proofs.Syntax.WellFormedParsing
import MonkeyLang.Proofs.Syntax.Congruence
import MonkeyLang.Proofs.Syntax.Depth
import MonkeyLang.Proofs.Syntax.Enclosure
import MonkeyLang.Proofs.Lexing.ClosedText
import MonkeyLang.Proofs.Syntax.Parentheses
import MonkeyLang.Proofs.Lexing.PrintedTokens
import MonkeyLang.Proofs.Registry.Completion
import MonkeyLang.Proofs.Syntax.Unlimited
import MonkeyLang.Proofs.Tree.Nest
import MonkeyLang.Proofs.Syntax.NestLimit
import MonkeyLang.Proofs.Tree.Formula
import MonkeyLang.Proofs.Tree.UniqueText
import MonkeyLang.Proofs.Syntax.DiagnosticLines
import MonkeyLang.Proofs.Registry.Counting
import MonkeyLang.Proofs.Registry.Reporting
import MonkeyLang.Proofs.Registry.EntryOrder
