import Assertions.Assertion
import Assertions.Compilation
import Assertions.Condensed
import Assertions.Datum
import Assertions.Datum.Arithmetic
import Assertions.Datum.Comparison
import Assertions.Decimal
import Assertions.Decimal.Layout
import Assertions.Decimal.Reading
import Assertions.Decimal.Shortest
import Assertions.Dictionary
import Assertions.Evaluation
import Assertions.Evaluation.Trace
import Assertions.Expr
import Assertions.Expr.Cursor
import Assertions.Expr.Reading
import Assertions.Fault
import Assertions.Host
import Assertions.Json
import Assertions.Json.Compact
import Assertions.Json.Reading
import Assertions.Literal
import Assertions.Log
import Assertions.Nesting
import Assertions.Nesting.Arguments
import Assertions.Nesting.CallSite
import Assertions.Number
import Assertions.Operator
import Assertions.Path
import Assertions.Roster
import Assertions.Roster.NameSet
import Assertions.Session
import Assertions.Span
import Assertions.Store
import Assertions.Symbols
import Assertions.Template
import Assertions.Template.Rendering
import Assertions.Text
import Assertions.Text.Blank
import Assertions.Text.Quoted
import Assertions.Text.Unprintable
import Assertions.Token
import Assertions.Token.Reading
import Assertions.Proofs.Tree
import Assertions.Proofs.Grammar
import Assertions.Proofs.Levels
import Assertions.Proofs.Offsets
import Assertions.Proofs.Acceptance
import Assertions.Proofs.Brackets
import Assertions.Proofs.Spacing
import Assertions.Proofs.Spelling
import Assertions.Proofs.Phrase
import Assertions.Proofs.Lexing
import Assertions.Proofs.Printing
import Assertions.Proofs.Origin
import Assertions.Proofs.CallSites
import Assertions.Proofs.Spans
import Assertions.Proofs.Words
import Assertions.Proofs.CallReferences
import Assertions.Proofs.MoreNames
import Assertions.Proofs.Separators
import Assertions.Proofs.AssertionGrammar
import Assertions.Proofs.Faults
import Assertions.Proofs.References
import Assertions.Proofs.Rendering
import Assertions.Proofs.Expansion
import Assertions.Proofs.Placement
import Assertions.Proofs.FaultSpans
import Assertions.Proofs.MessageFaults
import Assertions.Proofs.Verdicts
import Assertions.Proofs.Growth
import Assertions.Proofs.Histories
import Assertions.Proofs.Places
import Assertions.Proofs.CallOrder
import Assertions.Proofs.KnownNames
import Assertions.Proofs.StoreKinds
import Assertions.Proofs.Grouping
import Assertions.Proofs.AddedBrackets
import Assertions.Proofs.KeptCharacters
import Assertions.Proofs.Positions
import Assertions.Proofs.Tiling
import Assertions.Proofs.Openings
import Assertions.Proofs.Unlimited
import Assertions.Proofs.NestingLimit
import Assertions.Proofs.Partners
import Assertions.Proofs.BracketFaults
import Assertions.Proofs.WordPositions
import Assertions.Proofs.FoundPaths
import Assertions.Proofs.WholePaths
import Assertions.Proofs.LooseBlanks
import Assertions.Proofs.Stages
import Assertions.Proofs.Runs
import Assertions.Proofs.RunOutcomes
import Assertions.Proofs.Recovery
import Assertions.Proofs.Coherence
import Assertions.Proofs.PathComposition
import Assertions.Proofs.RootObject
import Assertions.Proofs.MissingOperands
import Assertions.Proofs.PathTexts
import Assertions.Proofs.MovedFragments
import Assertions.Proofs.ArgumentTrees
import Assertions.Proofs.BracketCounts
import Assertions.Proofs.ClosingBrackets
import Assertions.Proofs.EnclosingCalls
import Assertions.Proofs.QuoteParity
import Assertions.Proofs.LocalReading
import Assertions.Proofs.ArgumentLists
import Assertions.Proofs.RosterHistories
