import PolyLambda.Text
import PolyLambda.Text.Utf8
import PolyLambda.Text.Space
import PolyLambda.Text.Printable
import PolyLambda.Text.Quoted
import PolyLambda.Range
import PolyLambda.Calculus
import PolyLambda.Ty
import PolyLambda.Term
import PolyLambda.Printer
import PolyLambda.Place
import PolyLambda.Token
import PolyLambda.Token.Scan
import PolyLambda.ParseError
import PolyLambda.Parser
import PolyLambda.Listener
import PolyLambda.NameSet
import PolyLambda.Ty.Free
import PolyLambda.Ty.Substitution
import PolyLambda.Context
import PolyLambda.Typing
import PolyLambda.Diagnostic
import PolyLambda.Diagnostic.Report
import PolyLambda.Diagnostic.Collection
import PolyLambda.Log.Attr
import PolyLambda.Log
import PolyLambda.Check
import PolyLambda.Session
import PolyLambda.Printed
import PolyLambda.Line
import PolyLambda.Session.Entry
import PolyLambda.Session.History
import PolyLambda.Session.Conversation
import PolyLambda.Text.Numeral
import PolyLambda.CommandLine.Flag
import PolyLambda.CommandLine.Verb
import PolyLambda.CommandLine.Request
import PolyLambda.CommandLine.Directory
import PolyLambda.CommandLine.Outcome
import PolyLambda.CommandLine.Run
import PolyLambda.Main
import PolyLambda.Proofs.Outcome
import PolyLambda.Proofs.Typing.Rules
import PolyLambda.Proofs.Ty.Alpha
import PolyLambda.Proofs.Typing.SystemF
import PolyLambda.Proofs.Grammar
import PolyLambda.Proofs.Grammar.Reading
import PolyLambda.Proofs.Token.Spelling
import PolyLambda.Proofs.Token.Tiling
import PolyLambda.Proofs.RoundTrip
import PolyLambda.Proofs.Grammar.Levels
import PolyLambda.Proofs.Grammar.Lookahead
import PolyLambda.Proofs.Grammar.Completion
import PolyLambda.Proofs.Incomplete
import PolyLambda.Proofs.Typing.Erasure
import PolyLambda.Proofs.Check
import PolyLambda.Proofs.Session
import PolyLambda.Proofs.Session.Consistency
import PolyLambda.Proofs.Grammar.Ranges
import PolyLambda.Proofs.Typing.Scope
import PolyLambda.Proofs.Location
import PolyLambda.Proofs.Ty.Scopes
import PolyLambda.Proofs.Typing.Renaming
import PolyLambda.Proofs.Grammar.Shortage
import PolyLambda.Proofs.Totality
import PolyLambda.Proofs.Session.SimplyTyped
import PolyLambda.Proofs.Ty.Clashes
import PolyLambda.Proofs.Session.Naming
import PolyLambda.Proofs.Typing.FreeVariables
import PolyLambda.Proofs.Typing.Parameters
import PolyLambda.Proofs.Typing.Substitution
import PolyLambda.Proofs.Session.Inlining
import PolyLambda.Proofs.Typing.Instantiation
import PolyLambda.Proofs.Coverage
import PolyLambda.Proofs.ErrorToken
import PolyLambda.Proofs.Grammar.Agreement
import PolyLambda.Proofs.Parentheses
import PolyLambda.Proofs.Reformatting
import PolyLambda.Proofs.Session.Entry
import PolyLambda.Proofs.Grammar.Nodes
import PolyLambda.Proofs.Nesting
import PolyLambda.Proofs.NodeText
import PolyLambda.Proofs.Report
import PolyLambda.Proofs.NameSet
import PolyLambda.Proofs.Ty.FreeVariables
import PolyLambda.Proofs.Context
import PolyLambda.Proofs.CommandLine.Replacement
import PolyLambda.Proofs.Coordinates
import PolyLambda.Proofs.Literal
