import LocksetLang.Binary64.Basic
import LocksetLang.Binary64.Numeral
import LocksetLang.Binary64.Rounding
import LocksetLang.Binary64.Shortest
import LocksetLang.Binary64.Text
import LocksetLang.CommandLine.Arguments
import LocksetLang.CommandLine.Run
import LocksetLang.CommandLine.Shell
import LocksetLang.CommandLine.World
import LocksetLang.Document.Basic
import LocksetLang.Document.Json
import LocksetLang.Grammar.Buffer
import LocksetLang.Grammar.Fault
import LocksetLang.Grammar.Parser
import LocksetLang.Grammar.Productions
import LocksetLang.Grammar.Program
import LocksetLang.Limit
import LocksetLang.Main
import LocksetLang.Node.Basic
import LocksetLang.Node.Description
import LocksetLang.Node.Document
import LocksetLang.Node.Equality
import LocksetLang.Proofs.Binary64.Decimal
import LocksetLang.Proofs.Binary64.Nearest
import LocksetLang.Proofs.Binary64.Numeral
import LocksetLang.Proofs.Binary64.Written
import LocksetLang.Proofs.CommandLine.Outcomes
import LocksetLang.Proofs.CommandLine.Reading
import LocksetLang.Proofs.CommandLine.World
import LocksetLang.Proofs.Document.Escapes
import LocksetLang.Proofs.Document.Faithful
import LocksetLang.Proofs.Document.Reading
import LocksetLang.Proofs.Grammar.Acceptance
import LocksetLang.Proofs.Grammar.Agreement
import LocksetLang.Proofs.Grammar.Beginnings
import LocksetLang.Proofs.Grammar.Boundary
import LocksetLang.Proofs.Grammar.Buffer
import LocksetLang.Proofs.Grammar.Calls
import LocksetLang.Proofs.Grammar.Completeness
import LocksetLang.Proofs.Grammar.Depth
import LocksetLang.Proofs.Grammar.Derivation
import LocksetLang.Proofs.Grammar.EarliestFault
import LocksetLang.Proofs.Grammar.ExpressionHalts
import LocksetLang.Proofs.Grammar.Halting
import LocksetLang.Proofs.Grammar.LeftRung
import LocksetLang.Proofs.Grammar.Parameters
import LocksetLang.Proofs.Grammar.Places
import LocksetLang.Proofs.Grammar.Progress
import LocksetLang.Proofs.Grammar.Recognition
import LocksetLang.Proofs.Grammar.Reply
import LocksetLang.Proofs.Grammar.Soundness
import LocksetLang.Proofs.Grammar.StatementCompleteness
import LocksetLang.Proofs.Grammar.StatementHalts
import LocksetLang.Proofs.Grammar.StatementSoundness
import LocksetLang.Proofs.Grammar.Stops
import LocksetLang.Proofs.Node.Document
import LocksetLang.Proofs.Outcome
import LocksetLang.Proofs.Session.Continuation
import LocksetLang.Proofs.Session.Entries
import LocksetLang.Proofs.Session.Separation
import LocksetLang.Proofs.Source.Blocks
import LocksetLang.Proofs.Source.Classes
import LocksetLang.Proofs.Source.Content
import LocksetLang.Proofs.Source.Derivation
import LocksetLang.Proofs.Source.Formatting
import LocksetLang.Proofs.Source.Grouping
import LocksetLang.Proofs.Source.Joining
import LocksetLang.Proofs.Source.Ladder
import LocksetLang.Proofs.Source.Lexemes
import LocksetLang.Proofs.Source.Literals
import LocksetLang.Proofs.Source.Outcomes
import LocksetLang.Proofs.Source.Pages
import LocksetLang.Proofs.Source.Parentheses
import LocksetLang.Proofs.Source.Parsed
import LocksetLang.Proofs.Source.Placement
import LocksetLang.Proofs.Source.Plain
import LocksetLang.Proofs.Source.Printing
import LocksetLang.Proofs.Source.Respacing
import LocksetLang.Proofs.Source.RoundTrip
import LocksetLang.Proofs.Source.Runs
import LocksetLang.Proofs.Source.Statements
import LocksetLang.Proofs.Source.Strings
import LocksetLang.Proofs.Source.Unprintable
import LocksetLang.Proofs.Source.Unsupported
import LocksetLang.Proofs.Source.Visits
import LocksetLang.Proofs.Source.WellFormed
import LocksetLang.Proofs.Token.Braces
import LocksetLang.Proofs.Token.Coverage
import LocksetLang.Proofs.Token.Escaping
import LocksetLang.Proofs.Token.Layout
import LocksetLang.Proofs.Token.LongestMatch
import LocksetLang.Proofs.Token.Outside
import LocksetLang.Proofs.Token.Quotation
import LocksetLang.Proofs.Token.Reading
import LocksetLang.Proofs.Token.Respacing
import LocksetLang.Proofs.Token.Scanning
import LocksetLang.Proofs.Token.Spelling
import LocksetLang.Proofs.Token.Stripping
import LocksetLang.Proofs.Token.Tokens
import LocksetLang.Proofs.Token.Trivia
import LocksetLang.Rendering
import LocksetLang.Session.Entry
import LocksetLang.Session.Run
import LocksetLang.Source.Expression
import LocksetLang.Source.Fault
import LocksetLang.Source.Page
import LocksetLang.Text.Blank
import LocksetLang.Text.Cased
import LocksetLang.Text.DecimalDigit
import LocksetLang.Text.Encoding
import LocksetLang.Text.Hex
import LocksetLang.Text.Lowercase
import LocksetLang.Text.Newline
import LocksetLang.Text.Numeral
import LocksetLang.Text.Printable
import LocksetLang.Text.Quoted
import LocksetLang.Text.Words
import LocksetLang.Token.Basic
import LocksetLang.Token.Cursor
import LocksetLang.Token.Lexeme
import LocksetLang.Token.Reading
