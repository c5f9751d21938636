import IslandScript.Command.Characters
import IslandScript.Command.File
import IslandScript.Command.Invocation
import IslandScript.Command.Session
import IslandScript.Console
import IslandScript.Diagnostic
import IslandScript.Environment
import IslandScript.Eval.Argument
import IslandScript.Eval.Basic
import IslandScript.Eval.Binding
import IslandScript.Eval.Call
import IslandScript.Eval.Class
import IslandScript.Eval.Error
import IslandScript.Eval.Evaluator
import IslandScript.Eval.Expression
import IslandScript.Eval.Member
import IslandScript.Eval.Signal
import IslandScript.Eval.Statement
import IslandScript.Interpreter
import IslandScript.Interpreter.Run
import IslandScript.Lexer.Cursor
import IslandScript.Lexer.Error
import IslandScript.Lexer.Escape
import IslandScript.Lexer.Scan
import IslandScript.Link.Core
import IslandScript.Link.Core.Builder
import IslandScript.Link.Core.Globals
import IslandScript.Link.Core.Primitives
import IslandScript.Link.Core.Template
import IslandScript.Link.Linker
import IslandScript.Link.Native
import IslandScript.Main
import IslandScript.Name
import IslandScript.Number.Binary
import IslandScript.Number.Display
import IslandScript.Number.Power
import IslandScript.Number.Read
import IslandScript.Number.Shortest
import IslandScript.Parser.Basic
import IslandScript.Parser.Block
import IslandScript.Parser.Declaration
import IslandScript.Parser.Error
import IslandScript.Parser.Expression
import IslandScript.Parser.Program
import IslandScript.Parser.Statement
import IslandScript.Source
import IslandScript.Span
import IslandScript.Store
import IslandScript.Syntax.Arguments
import IslandScript.Syntax.Operator
import IslandScript.Syntax.Tree
import IslandScript.Text.Alphabetic
import IslandScript.Text.Blank
import IslandScript.Text.Box
import IslandScript.Text.Casing
import IslandScript.Text.CharRange
import IslandScript.Text.Decode
import IslandScript.Text.Lines
import IslandScript.Text.Search
import IslandScript.Text.Times
import IslandScript.Token
import IslandScript.Value.Basic
import IslandScript.Value.Display
import IslandScript.Value.Equality
import IslandScript.Value.Index
import IslandScript.Value.Object
import IslandScript.Value.Operator
import IslandScript.Value.Scope
import IslandScript.Value.Table
import IslandScript.Value.Wrappers
import IslandScript.Proofs.Logic.Basic
import IslandScript.Proofs.Logic.Rules
import IslandScript.Proofs.Logic.Calls
import IslandScript.Proofs.Logic.Evaluator
import IslandScript.Proofs.Logic.Framed
import IslandScript.Proofs.Logic.Request
import IslandScript.Proofs.Scope.Balance
import IslandScript.Proofs.Scope.Lexical
import IslandScript.Proofs.Scope.Update
import IslandScript.Proofs.Scope.Evolution
import IslandScript.Proofs.Scope.Walk
import IslandScript.Proofs.Scope.Borrow
import IslandScript.Proofs.Link.Faithful
import IslandScript.Proofs.Link.Core
import IslandScript.Proofs.Link.History
import IslandScript.Proofs.Scope.Sound
import IslandScript.Proofs.Scope.Reachable
import IslandScript.Proofs.Signal.Barrier
import IslandScript.Proofs.Number.Equality
import IslandScript.Proofs.Value.Bisimilar
import IslandScript.Proofs.Value.Picture
import IslandScript.Proofs.Number.Read
import IslandScript.Proofs.Lexer.Lexeme
import IslandScript.Proofs.Lexer.Cursor
import IslandScript.Proofs.Lexer.Piece
import IslandScript.Proofs.Lexer.Trivia
import IslandScript.Proofs.Lexer.LineBreak
import IslandScript.Proofs.Lexer.Tiling
import IslandScript.Proofs.Text.Lines
import IslandScript.Proofs.Diagnostic.Underline
import IslandScript.Proofs.Parser.Reads
import IslandScript.Proofs.Syntax.Spans
import IslandScript.Proofs.Parser.Term
import IslandScript.Proofs.Parser.Levels
import IslandScript.Proofs.Parser.RoundTrip
import IslandScript.Proofs.Parser.Follows
import IslandScript.Proofs.Parser.Follows.Block
import IslandScript.Proofs.Parser.Follows.Expression
import IslandScript.Proofs.Parser.Follows.Statement
import IslandScript.Proofs.Parser.Follows.Program
import IslandScript.Proofs.Parser.LineBreak
import IslandScript.Proofs.Argument.Resolution
import IslandScript.Proofs.Argument.Delivery
import IslandScript.Proofs.Argument.Evaluation
import IslandScript.Proofs.Place.Judgement
import IslandScript.Proofs.Place.Calls
import IslandScript.Proofs.Place.Evaluator
import IslandScript.Proofs.Parser.Sites
import IslandScript.Proofs.Parser.Sites.Expression
import IslandScript.Proofs.Parser.Sites.Program
import IslandScript.Proofs.Place.History
import IslandScript.Proofs.Place.Session
import IslandScript.Proofs.Argument.Variadic
import IslandScript.Proofs.Run.Pieces
import IslandScript.Proofs.Syntax.Names
import IslandScript.Proofs.Parser.Renaming
import IslandScript.Proofs.Parser.Renaming.Expression
import IslandScript.Proofs.Parser.Renaming.Program
import IslandScript.Proofs.Parser.Naming
import IslandScript.Proofs.Parser.Interned
import IslandScript.Proofs.Parser.Progress
import IslandScript.Proofs.Parser.Progress.Expression
import IslandScript.Proofs.Parser.Progress.Statement
import IslandScript.Proofs.Parser.Progress.Program
import IslandScript.Proofs.Parser.Binders
import IslandScript.Proofs.Parser.Binders.Expression
import IslandScript.Proofs.Parser.Binders.Program
import IslandScript.Proofs.Move.Basic
import IslandScript.Proofs.Move.Deed
import IslandScript.Proofs.Move.Judgement
import IslandScript.Proofs.Move.Calls
import IslandScript.Proofs.Move.Evaluator
import IslandScript.Proofs.Move.History
import IslandScript.Proofs.Scope.Discarded
import IslandScript.Proofs.Link.Sole
import IslandScript.Proofs.Link.Lists
import IslandScript.Proofs.Lexer.Plain
import IslandScript.Proofs.Link.Prelude
import IslandScript.Proofs.Wrapper.Instance
import IslandScript.Proofs.Wrapper.Class
import IslandScript.Proofs.Wrapper.Coherent
import IslandScript.Proofs.Wrapper.Kept
import IslandScript.Proofs.Wrapper.Life
import IslandScript.Proofs.Wrapper.Member
import IslandScript.Proofs.Wrapper.Start
import IslandScript.Proofs.Scope.Graph
import IslandScript.Proofs.Scope.Assign
import IslandScript.Proofs.Scope.Cell
import IslandScript.Proofs.Syntax.Interning
import IslandScript.Proofs.Parser.Body
import IslandScript.Proofs.Syntax.Declarations
import IslandScript.Proofs.Parser.Declarations
import IslandScript.Proofs.Parser.Declarations.Expression
import IslandScript.Proofs.Parser.Declarations.Program
import IslandScript.Proofs.Loop.Pass
import IslandScript.Proofs.Loop.Nest
import IslandScript.Proofs.Landing.Syntax
import IslandScript.Proofs.Landing.Judgement
import IslandScript.Proofs.Landing.Calls
import IslandScript.Proofs.Landing.Evaluator
import IslandScript.Proofs.Landing.Entries
import IslandScript.Proofs.Scope.Self
import IslandScript.Proofs.Scope.Declaration
import IslandScript.Proofs.Link.Import
import IslandScript.Proofs.Lexer.Spelling
import IslandScript.Proofs.Lexer.Written
import IslandScript.Proofs.Lexer.Number
import IslandScript.Proofs.Text.Split
import IslandScript.Proofs.Link.Split
import IslandScript.Proofs.Parser.Enclosed
import IslandScript.Proofs.Parser.Enclosed.Expression
import IslandScript.Proofs.Parser.Enclosed.Statement
import IslandScript.Proofs.Parser.Compound
import IslandScript.Proofs.Value.Operand
import IslandScript.Proofs.Value.Index
import IslandScript.Proofs.Link.Template
import IslandScript.Proofs.Text.Bytes
import IslandScript.Proofs.Lexer.Skip
import IslandScript.Proofs.Link.Index
import IslandScript.Proofs.Text.Box
