import MflFrontend.Token.Source
import MflFrontend.Text.Blank
import MflFrontend.Node.Layout
import MflFrontend.Node.Record
import MflFrontend.Node.Agreement
import MflFrontend.Node.Constructor
import MflFrontend.Grammar.Program
import MflFrontend.Text.DecimalDigit
import MflFrontend.Files.Store
import MflFrontend.Logging
import MflFrontend.Session.Basic
import MflFrontend.Command.Run
import MflFrontend.Main
import MflFrontend.Proofs.Grammar.Derivation
import MflFrontend.Proofs.Grammar.Stepping
import MflFrontend.Proofs.Grammar.Laws
import MflFrontend.Proofs.Grammar.Reading
import MflFrontend.Proofs.Grammar.Completeness
import MflFrontend.Proofs.Grammar.Recognition
import MflFrontend.Proofs.Grammar.Lockstep
import MflFrontend.Proofs.Grammar.CorrectPrefix
import MflFrontend.Proofs.Grammar.Shape
import MflFrontend.Proofs.Grammar.Printing
import MflFrontend.Proofs.Lexing.Factors
import MflFrontend.Proofs.Decimal.Literal
import MflFrontend.Proofs.Lexing.Munch
import MflFrontend.Proofs.Lexing.Recognition
import MflFrontend.Proofs.Grammar.Alike
import MflFrontend.Proofs.Grammar.Interleaving
import MflFrontend.Proofs.Lexing.Concatenation
import MflFrontend.Proofs.Grammar.Concatenation
import MflFrontend.Proofs.Lexing.Respacing
import MflFrontend.Proofs.Node.Layout
import MflFrontend.Proofs.Node.Descendants
import MflFrontend.Proofs.Node.Coinciding
import MflFrontend.Proofs.Node.Visits
import MflFrontend.Proofs.Node.Entries
import MflFrontend.Proofs.Grammar.Respacing
import MflFrontend.Proofs.Text.Blank
import MflFrontend.Proofs.Lexing.Lines
import MflFrontend.Proofs.Session.Chunk
import MflFrontend.Proofs.Grammar.Statements
import MflFrontend.Proofs.Session.Programs
import MflFrontend.Proofs.Grammar.Kinds
import MflFrontend.Proofs.Grammar.Failures
import MflFrontend.Proofs.Grammar.Records
import MflFrontend.Proofs.Grammar.Lookahead
import MflFrontend.Proofs.Text.Utf8
import MflFrontend.Proofs.Lexing.LineEnds
import MflFrontend.Proofs.Files.Store
import MflFrontend.Proofs.Session.Chunks
import MflFrontend.Proofs.Session.Conversation
import MflFrontend.Proofs.Node.Blocks
import MflFrontend.Proofs.Node.Resemblance
import MflFrontend.Proofs.Node.Record
import MflFrontend.Proofs.Decimal.Rounding
import MflFrontend.Proofs.Decimal.Notation
import MflFrontend.Proofs.Text.Quoted
import MflFrontend.Proofs.Token.Display
import MflFrontend.Proofs.Node.Rendering
import MflFrontend.Proofs.Json.Grammar
import MflFrontend.Proofs.Json.Writing
import MflFrontend.Proofs.Json.Programs
import MflFrontend.Proofs.Lexing.Places
import MflFrontend.Proofs.Lexing.Progress
import MflFrontend.Proofs.Node.Order
import MflFrontend.Proofs.Grammar.Positions
import MflFrontend.Proofs.Grammar.Messages
import MflFrontend.Proofs.Command.Arguments
import MflFrontend.Proofs.Command.Showing
