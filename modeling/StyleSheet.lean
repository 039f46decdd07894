import StyleSheet.Text
import StyleSheet.Dialect
import StyleSheet.Kind
import StyleSheet.Vocabulary
import StyleSheet.Numeral.Binary64
import StyleSheet.Numeral
import StyleSheet.Token
import StyleSheet.Token.Lexeme
import StyleSheet.Token.Lexer
import StyleSheet.Token.Cursor
import StyleSheet.Token.Stream
import StyleSheet.Fault
import StyleSheet.Event
import StyleSheet.Parser
import StyleSheet.Grammar.View
import StyleSheet.Grammar.Nonterminal
import StyleSheet.Grammar.Rule
import StyleSheet.Grammar.Name
import StyleSheet.Grammar.Value
import StyleSheet.Grammar.Selector
import StyleSheet.Grammar.Block
import StyleSheet.Grammar.Query
import StyleSheet.Grammar.Parameter
import StyleSheet.Grammar.Variable
import StyleSheet.Grammar.Guard
import StyleSheet.Grammar.Mixin
import StyleSheet.Grammar.Flow
import StyleSheet.Grammar.Resource
import StyleSheet.Grammar.AtRule
import StyleSheet.Grammar.Statement
import StyleSheet.Grammar
import StyleSheet.Tree
import StyleSheet.Tree.Builder
import StyleSheet.Parse
import StyleSheet.Tree.Site
import StyleSheet.Tree.Path
import StyleSheet.Construct.Rule
import StyleSheet.Construct.Callable
import StyleSheet.Construct.Resource
import StyleSheet.Construct.Quantity
import StyleSheet.Construct
import StyleSheet.Symbol
import StyleSheet.Scope
import StyleSheet.Forest
import StyleSheet.Proofs.Lexeme
import StyleSheet.Proofs.Spelling
import StyleSheet.Proofs.Tokens
import StyleSheet.Proofs.Tiling
import StyleSheet.Proofs.Cuts
import StyleSheet.Proofs.Consistency
import StyleSheet.Proofs.Outcomes
import StyleSheet.Proofs.Session
import StyleSheet.Proofs.Nesting
import StyleSheet.Proofs.Records
import StyleSheet.Proofs.Extension
import StyleSheet.Proofs.Growth
import StyleSheet.Proofs.Behaviour
import StyleSheet.Proofs.Analysis
import StyleSheet.Proofs.Combinators
import StyleSheet.Proofs.Grammar.Name
import StyleSheet.Proofs.Grammar.Value
import StyleSheet.Proofs.Grammar.Block
import StyleSheet.Proofs.Grammar.Statement
import StyleSheet.Proofs.Execution
import StyleSheet.Proofs.Progress
import StyleSheet.Proofs.Activity
import StyleSheet.Proofs.Building
import StyleSheet.Proofs.Termination
import StyleSheet.Proofs.Boundary
import StyleSheet.Proofs.Lossless
import StyleSheet.Proofs.OneTree
import StyleSheet.Proofs.Outline
import StyleSheet.Proofs.Likeness
import StyleSheet.Proofs.Formatting
import StyleSheet.Proofs.Kinds
import StyleSheet.Proofs.Marks
import StyleSheet.Proofs.Numbering
import StyleSheet.Proofs.Diagnostics
import StyleSheet.Proofs.Scoping
import StyleSheet.Proofs.ScopeTree
import StyleSheet.Proofs.Resolution
import StyleSheet.Proofs.SymbolTable
import StyleSheet.Proofs.Families
import StyleSheet.Proofs.Adoption
import StyleSheet.Proofs.Reading
import StyleSheet.Proofs.Account
import StyleSheet.Proofs.Braces
import StyleSheet.Proofs.Lookahead
import StyleSheet.Proofs.Sparing
import StyleSheet.Proofs.Grammar.Braces
import StyleSheet.Proofs.Grammar.Closing
import StyleSheet.Proofs.Recovery
import StyleSheet.Proofs.Shape
import StyleSheet.Proofs.CleanBraces
import StyleSheet.Proofs.CallForm
import StyleSheet.Proofs.Layout
import StyleSheet.Proofs.NodeParts
import StyleSheet.Proofs.Grammar.Dialects
import StyleSheet.Proofs.Grammar.Parts
import StyleSheet.Proofs.NodeForms
import StyleSheet.Proofs.Isolation
import StyleSheet.Proofs.Fragments
import StyleSheet.Proofs.Tandem
import StyleSheet.Proofs.Grammar.Nearsight
import StyleSheet.Proofs.Grammar.Braceless
import StyleSheet.Proofs.Grammar.Tandem
import StyleSheet.Proofs.Grammar.Front
import StyleSheet.Proofs.Shift
import StyleSheet.Proofs.Grammar.Start
import StyleSheet.Proofs.Concatenation
import StyleSheet.Proofs.Grammar.Operators
import StyleSheet.Proofs.Rewind
import StyleSheet.Proofs.Brackets
import StyleSheet.Proofs.Grammar.Brackets
import StyleSheet.Proofs.Precedence
import StyleSheet.Proofs.CustomValue
import StyleSheet.Proofs.Rereading
import StyleSheet.Proofs.Numerals
import StyleSheet.Proofs.LineComments
import StyleSheet.Proofs.Characters
import StyleSheet.Proofs.Delimiters
import StyleSheet.Proofs.LeafTexts
import StyleSheet.Proofs.Quantities
import StyleSheet.Proofs.OffsetQuery
import StyleSheet.Proofs.CursorWalk
import StyleSheet.Proofs.Trimming
import StyleSheet.Proofs.LexicalNodes
import StyleSheet.Proofs.VariableNames
import StyleSheet.Proofs.GlobalFlag
import StyleSheet.Proofs.Unquoting
import StyleSheet.Proofs.Grammar.Recoveries
import StyleSheet.Proofs.Skipping
