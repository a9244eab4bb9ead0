import ProtoAtlas.Builtin.Api
import ProtoAtlas.Builtin.Catalog
import ProtoAtlas.Builtin.CommonType
import ProtoAtlas.Builtin.Descriptor
import ProtoAtlas.Builtin.Platform
import ProtoAtlas.Builtin.Protobuf
import ProtoAtlas.Builtin.Rpc
import ProtoAtlas.Builtin.Stub
import ProtoAtlas.Check.Body
import ProtoAtlas.Check.File
import ProtoAtlas.Check.Problem
import ProtoAtlas.Command.Arguments
import ProtoAtlas.Command.Run
import ProtoAtlas.Command.Survey
import ProtoAtlas.Disk.Basic
import ProtoAtlas.Disk.Load
import ProtoAtlas.Grammar.Field
import ProtoAtlas.Grammar.File
import ProtoAtlas.Grammar.Message
import ProtoAtlas.Grammar.Option
import ProtoAtlas.Grammar.Reader
import ProtoAtlas.Literal.Number
import ProtoAtlas.Literal.String
import ProtoAtlas.Main
import ProtoAtlas.Number.Binary64
import ProtoAtlas.Number.Integer
import ProtoAtlas.Number.Real
import ProtoAtlas.Number.Shortest
import ProtoAtlas.Path.Lexical
import ProtoAtlas.Path.Uri
import ProtoAtlas.Schema.Basic
import ProtoAtlas.Schema.Describe
import ProtoAtlas.Schema.Fault
import ProtoAtlas.Schema.Walk
import ProtoAtlas.Source.Comment
import ProtoAtlas.Source.Position
import ProtoAtlas.Source.Segment
import ProtoAtlas.Source.Token
import ProtoAtlas.Symbol.Basic
import ProtoAtlas.Symbol.Declared
import ProtoAtlas.Symbol.Index
import ProtoAtlas.Symbol.Reference
import ProtoAtlas.Text.Blank
import ProtoAtlas.Text.CodePoint
import ProtoAtlas.Text.Digit
import ProtoAtlas.Text.Printable
import ProtoAtlas.Text.Quoted
import ProtoAtlas.Text.Utf8
import ProtoAtlas.Workspace.Basic
import ProtoAtlas.Workspace.Event
import ProtoAtlas.Workspace.Import
import ProtoAtlas.Workspace.References
import ProtoAtlas.Workspace.Session
import ProtoAtlas.Workspace.Settings
import ProtoAtlas.Workspace.Types
import ProtoAtlas.Workspace.Visible
import ProtoAtlas.Proofs.Check.BodyRules
import ProtoAtlas.Proofs.Check.ChoiceGroups
import ProtoAtlas.Proofs.Check.FileRules
import ProtoAtlas.Proofs.Check.MessageBodies
import ProtoAtlas.Proofs.Check.References
import ProtoAtlas.Proofs.Check.UnknownTypes
import ProtoAtlas.Proofs.Disk.Agreement
import ProtoAtlas.Proofs.Disk.Asked
import ProtoAtlas.Proofs.Disk.DepthFirst
import ProtoAtlas.Proofs.Disk.Loaded
import ProtoAtlas.Proofs.Disk.LoadedOnce
import ProtoAtlas.Proofs.Grammar.Blind
import ProtoAtlas.Proofs.Grammar.Brace
import ProtoAtlas.Proofs.Grammar.Documented
import ProtoAtlas.Proofs.Grammar.FaultOrder
import ProtoAtlas.Proofs.Grammar.Laminar
import ProtoAtlas.Proofs.Grammar.LayoutFree
import ProtoAtlas.Proofs.Grammar.Loops
import ProtoAtlas.Proofs.Grammar.Members
import ProtoAtlas.Proofs.Grammar.Nesting
import ProtoAtlas.Proofs.Grammar.Parts
import ProtoAtlas.Proofs.Grammar.ReadBack
import ProtoAtlas.Proofs.Grammar.Reads
import ProtoAtlas.Proofs.Grammar.Recovery
import ProtoAtlas.Proofs.Grammar.Replay
import ProtoAtlas.Proofs.Grammar.RoundTrip
import ProtoAtlas.Proofs.Grammar.Run
import ProtoAtlas.Proofs.Grammar.Siblings
import ProtoAtlas.Proofs.Grammar.Total
import ProtoAtlas.Proofs.Grammar.Trace
import ProtoAtlas.Proofs.Grammar.Traced
import ProtoAtlas.Proofs.Grammar.TracedRules
import ProtoAtlas.Proofs.Literal.Answer
import ProtoAtlas.Proofs.Literal.Delimited
import ProtoAtlas.Proofs.Literal.Integer
import ProtoAtlas.Proofs.Literal.Spelling
import ProtoAtlas.Proofs.Literal.Written
import ProtoAtlas.Proofs.Number.Exact
import ProtoAtlas.Proofs.Path.Place
import ProtoAtlas.Proofs.Path.Resolved
import ProtoAtlas.Proofs.Path.Uri
import ProtoAtlas.Proofs.Schema.Depth
import ProtoAtlas.Proofs.Schema.Laid
import ProtoAtlas.Proofs.Schema.Listed
import ProtoAtlas.Proofs.Schema.Node
import ProtoAtlas.Proofs.Schema.Pieces
import ProtoAtlas.Proofs.Schema.Printed
import ProtoAtlas.Proofs.Schema.Reached
import ProtoAtlas.Proofs.Source.Attached
import ProtoAtlas.Proofs.Source.Gap
import ProtoAtlas.Proofs.Source.Lexeme
import ProtoAtlas.Proofs.Source.Placed
import ProtoAtlas.Proofs.Source.Respaced
import ProtoAtlas.Proofs.Source.Slice
import ProtoAtlas.Proofs.Source.Spaced
import ProtoAtlas.Proofs.Symbol.Complete
import ProtoAtlas.Proofs.Symbol.Covers
import ProtoAtlas.Proofs.Symbol.Declared
import ProtoAtlas.Proofs.Symbol.Referred
import ProtoAtlas.Proofs.Text.Utf8
import ProtoAtlas.Proofs.Workspace.Answer
import ProtoAtlas.Proofs.Workspace.Commute
import ProtoAtlas.Proofs.Workspace.Completions
import ProtoAtlas.Proofs.Workspace.Indexed
import ProtoAtlas.Proofs.Workspace.LoadOrder
import ProtoAtlas.Proofs.Workspace.Located
import ProtoAtlas.Proofs.Workspace.Question
import ProtoAtlas.Proofs.Workspace.References
import ProtoAtlas.Proofs.Workspace.Remembered
import ProtoAtlas.Proofs.Workspace.Replaced
import ProtoAtlas.Proofs.Workspace.Resolvable
import ProtoAtlas.Proofs.Workspace.Suggested
import ProtoAtlas.Proofs.Workspace.TypeRule
import ProtoAtlas.Proofs.Workspace.Undone
import ProtoAtlas.Proofs.Workspace.Visibility
import ProtoAtlas.Proofs.Workspace.VisitOrder
