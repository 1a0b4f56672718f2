import JavaFrontend.Batch
import JavaFrontend.Batch.Schedule
import JavaFrontend.Chart.Closure
import JavaFrontend.Chart.Column
import JavaFrontend.Chart.Interpretation
import JavaFrontend.Chart.State
import JavaFrontend.Chart.StateSet
import JavaFrontend.Compilation
import JavaFrontend.Diagnostic
import JavaFrontend.Grammar.Basic
import JavaFrontend.Grammar.Draft
import JavaFrontend.Grammar.Element
import JavaFrontend.Grammar.Error
import JavaFrontend.Grammar.Expansion
import JavaFrontend.Grammar.Prediction
import JavaFrontend.Grammar.Reachability
import JavaFrontend.Grammar.Text.Lexeme
import JavaFrontend.Grammar.Text.Reader
import JavaFrontend.Grammar.Validity
import JavaFrontend.Java.ClassName
import JavaFrontend.Java.Display
import JavaFrontend.Java.Form
import JavaFrontend.Java.Grammar
import JavaFrontend.Java.Grammar.Declarations
import JavaFrontend.Java.Grammar.Expressions
import JavaFrontend.Java.Grammar.Statements
import JavaFrontend.Java.Grammar.Types
import JavaFrontend.Java.Grammar.Units
import JavaFrontend.Java.Grammar.Writing
import JavaFrontend.Java.Literal
import JavaFrontend.Java.Name
import JavaFrontend.Java.Outline
import JavaFrontend.Java.Parser
import JavaFrontend.Java.Place
import JavaFrontend.Java.Reduction
import JavaFrontend.Java.Reduction.Declarations
import JavaFrontend.Java.Reduction.Expressions
import JavaFrontend.Java.Reduction.Statements
import JavaFrontend.Java.Reduction.Types
import JavaFrontend.Java.Tree
import JavaFrontend.Java.Walk
import JavaFrontend.Number.Binary
import JavaFrontend.Number.Digits
import JavaFrontend.Parse.Attempts
import JavaFrontend.Parse.Error
import JavaFrontend.Parse.Pass
import JavaFrontend.Parse.Tape
import JavaFrontend.Proofs.Chart.Answers
import JavaFrontend.Proofs.Chart.Closure
import JavaFrontend.Proofs.Chart.Column
import JavaFrontend.Proofs.Chart.EarleySet
import JavaFrontend.Proofs.Grammar.Derivation
import JavaFrontend.Proofs.Grammar.WellFormed
import JavaFrontend.Proofs.Parse.Attempts
import JavaFrontend.Proofs.Parse.Detection
import JavaFrontend.Proofs.Parse.Faithfulness
import JavaFrontend.Proofs.Parse.Pass
import JavaFrontend.Proofs.Parse.Recognition
import JavaFrontend.Proofs.Parse.Step
import JavaFrontend.Proofs.Parse.Tapes
import JavaFrontend.Proofs.Parse.TokenLists
import JavaFrontend.Proofs.Reduction.GenericTree
import JavaFrontend.Proofs.Token.Lexeme
import JavaFrontend.Reduction.Builder
import JavaFrontend.Reduction.Error
import JavaFrontend.Reduction.Node
import JavaFrontend.Reduction.NodeForm
import JavaFrontend.Reduction.Operands
import JavaFrontend.Source.Discovery
import JavaFrontend.Source.FileTree
import JavaFrontend.Source.Path
import JavaFrontend.Text.Form
import JavaFrontend.Text.Log
import JavaFrontend.Text.Position
import JavaFrontend.Token.Basic
import JavaFrontend.Token.Form
import JavaFrontend.Token.Kind
import JavaFrontend.Token.LexError
import JavaFrontend.Token.Lexeme.Basic
import JavaFrontend.Token.Lexeme.Number
import JavaFrontend.Token.Lexeme.Quoted
import JavaFrontend.Token.Lexeme.Scan
import JavaFrontend.Token.Lexer
import JavaFrontend.Token.Source
import JavaFrontend.Unicode.Alphabetic
import JavaFrontend.Unicode.Blank
import JavaFrontend.Unicode.Numeric
import JavaFrontend.Unicode.Quoted
import JavaFrontend.Unicode.Range
import JavaFrontend.Proofs.Parse.Retries
import JavaFrontend.Proofs.Parse.SplitSearch
import JavaFrontend.Proofs.Java.Words
import JavaFrontend.Proofs.Reduction.Rows
import JavaFrontend.Proofs.Reduction.Makes
import JavaFrontend.Proofs.Reduction.Operands
import JavaFrontend.Proofs.Java.Types
import JavaFrontend.Proofs.Java.Declarations
import JavaFrontend.Proofs.Java.Statements
import JavaFrontend.Proofs.Java.Expressions
import JavaFrontend.Proofs.Java.Signatures
import JavaFrontend.Proofs.Java.Coverage
import JavaFrontend.Proofs.Grammar.Expansion
import JavaFrontend.Proofs.Java.Typing
import JavaFrontend.Proofs.Grammar.Reachability
import JavaFrontend.Proofs.Grammar.Meaning
import JavaFrontend.Proofs.Grammar.Orderly
import JavaFrontend.Proofs.Grammar.Text.Layout
import JavaFrontend.Proofs.Grammar.Text.Writing
import JavaFrontend.Proofs.Grammar.Repetitions
import JavaFrontend.Proofs.Grammar.TokenRows
import JavaFrontend.Proofs.Java.Goals
import JavaFrontend.Proofs.Java.Parses
import JavaFrontend.Proofs.Token.Lexing
import JavaFrontend.Proofs.Token.Context
import JavaFrontend.Proofs.Java.Yield
import JavaFrontend.Proofs.Parse.Texts
import JavaFrontend.Proofs.Parse.TypeContext
import JavaFrontend.Proofs.Place.Charts
import JavaFrontend.Proofs.Place.Reductions
import JavaFrontend.Proofs.Token.Locality.Scan
import JavaFrontend.Proofs.Token.Spaced
import JavaFrontend.Proofs.Parse.Parallel
import JavaFrontend.Proofs.Parse.Insertion
import JavaFrontend.Proofs.Batch.Schedule
import JavaFrontend.Proofs.Java.Making
import JavaFrontend.Proofs.Java.Sieve
import JavaFrontend.Proofs.Java.Children
import JavaFrontend.Proofs.Java.Nests
import JavaFrontend.Proofs.Java.Walks
import JavaFrontend.Proofs.Java.Classes
import JavaFrontend.Proofs.Java.BinaryNames
import JavaFrontend.Proofs.Parse.Angles
import JavaFrontend.Proofs.Token.Words
import JavaFrontend.Proofs.Java.TypeSyntax
import JavaFrontend.Proofs.Java.TypeBuilding
import JavaFrontend.Proofs.Java.TypeShifts
import JavaFrontend.Proofs.Java.TypeText
import JavaFrontend.Proofs.Source.PathOrder
import JavaFrontend.Proofs.Diagnostic.Sorted
import JavaFrontend.Proofs.Source.Discovery
import JavaFrontend.Proofs.Compilation
import JavaFrontend.Proofs.Reduction.Yields
import JavaFrontend.Proofs.Trees.Keeping
import JavaFrontend.Proofs.Trees.Types
import JavaFrontend.Proofs.Trees.Declarations
import JavaFrontend.Proofs.Trees.Statements
import JavaFrontend.Proofs.Trees.Expressions
import JavaFrontend.Proofs.Trees.Parses
import JavaFrontend.Proofs.Java.NearestIf
import JavaFrontend.Proofs.Token.Pieces
import JavaFrontend.Proofs.Java.Precedence
import JavaFrontend.Proofs.Java.Ladder
import JavaFrontend.Proofs.Java.Chains
import JavaFrontend.Proofs.Token.Symbols
import JavaFrontend.Proofs.Parse.ClosingAngles
import JavaFrontend.Proofs.Reduction.Spends
import JavaFrontend.Proofs.Java.Representation
import JavaFrontend.Proofs.Java.Parameters
import JavaFrontend.Proofs.Java.BracketCounts
import JavaFrontend.Proofs.Parse.Forward
import JavaFrontend.Proofs.Reduction.Leads
import JavaFrontend.Proofs.Place.Beginnings
import JavaFrontend.Proofs.Place.Corners
import JavaFrontend.Proofs.Place.FirstTokens
import JavaFrontend.Proofs.Java.StoppedWalks
import JavaFrontend.Proofs.Token.Encodings
import JavaFrontend.Proofs.Token.Integers
import JavaFrontend.Proofs.Token.Separators
import JavaFrontend.Chart.Indexed
import JavaFrontend.Java.ClassFrames
import JavaFrontend.Proofs.Chart.Arrivals
import JavaFrontend.Proofs.Chart.Indexes
import JavaFrontend.Proofs.Grammar.EmptyProductions
import JavaFrontend.Proofs.Parse.WayForward
import JavaFrontend.Proofs.Java.ClassFrames
import JavaFrontend.Proofs.Java.EnclosingClasses
import JavaFrontend.Proofs.Chart.Rounds
import JavaFrontend.Proofs.Parse.Closings
