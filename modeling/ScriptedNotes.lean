import ScriptedNotes.Session
import ScriptedNotes.Run.Eval
import ScriptedNotes.Terminal
import ScriptedNotes.Keyed
import ScriptedNotes.Json.Parser
import ScriptedNotes.Json.Printer
import ScriptedNotes.Page.Vault
import ScriptedNotes.Page.Block
import ScriptedNotes.Page.Inline
import ScriptedNotes.Script.Lexer
import ScriptedNotes.Script.Syntax
import ScriptedNotes.Page.Render
import ScriptedNotes.Disk.Basic
import ScriptedNotes.Disk.Effect
import ScriptedNotes.Workspace.FileTree
import ScriptedNotes.Workspace.Store
import ScriptedNotes.App
import ScriptedNotes.CommandLine.Arguments
import ScriptedNotes.CommandLine.Run
import ScriptedNotes.Main
import ScriptedNotes.Proofs.Run.Keeps
import ScriptedNotes.Proofs.Run.ControlFlow
import ScriptedNotes.Proofs.Run.Evaluation
import ScriptedNotes.Proofs.Run.Scopes
import ScriptedNotes.Proofs.Run.Termination
import ScriptedNotes.Proofs.Session.Stream
import ScriptedNotes.Proofs.Script.CommentStripping
import ScriptedNotes.Proofs.Script.Lockstep
import ScriptedNotes.Proofs.Script.Printing
import ScriptedNotes.Proofs.Script.Reading
import ScriptedNotes.Proofs.Script.RoundTrip
import ScriptedNotes.Proofs.Script.Message
import ScriptedNotes.Proofs.Page.Placeholder
import ScriptedNotes.Proofs.Page.Layout
import ScriptedNotes.Proofs.Page.Marks
import ScriptedNotes.Proofs.Page.Vaulting
import ScriptedNotes.Proofs.Page.Restoration
import ScriptedNotes.Proofs.Page.VaultContent
import ScriptedNotes.Proofs.Page.Exchange
import ScriptedNotes.Proofs.Run.Provenance
import ScriptedNotes.Proofs.Session.Isolation
import ScriptedNotes.Proofs.Workspace.Confinement
import ScriptedNotes.Proofs.Page.LineEnds
import ScriptedNotes.Proofs.Page.Scripts
import ScriptedNotes.Proofs.Page.Preview
import ScriptedNotes.Proofs.Session.Note
import ScriptedNotes.Proofs.Session.Refresh
import ScriptedNotes.Proofs.Workspace.Listing
import ScriptedNotes.Proofs.Workspace.Refusal
import ScriptedNotes.Proofs.Session.Inert
import ScriptedNotes.Proofs.Workspace.FileMap
import ScriptedNotes.Proofs.Script.Interpolation
import ScriptedNotes.Proofs.Script.Precedence
import ScriptedNotes.Proofs.Page.ClosingMarks
import ScriptedNotes.Proofs.Script.NumberedEscapes
import ScriptedNotes.Proofs.Run.CallDepth
import ScriptedNotes.Proofs.Run.Elements
import ScriptedNotes.Proofs.Script.TokenCover
import ScriptedNotes.Proofs.Script.CommandLines
import ScriptedNotes.Proofs.Script.TaskBlocks
import ScriptedNotes.Proofs.Page.BlockSeams
import ScriptedNotes.Proofs.Page.Columns
import ScriptedNotes.Proofs.Workspace.Walking
import ScriptedNotes.Proofs.Workspace.Mirroring
import ScriptedNotes.Proofs.Workspace.Writing
import ScriptedNotes.Proofs.Workspace.Recent
import ScriptedNotes.Proofs.Workspace.Arrangement
import ScriptedNotes.Proofs.Run.Hoisting
import ScriptedNotes.Proofs.Script.BlockClosers
import ScriptedNotes.Proofs.Script.CommandForms
import ScriptedNotes.Proofs.Page.Tags
import ScriptedNotes.Proofs.Session.TaskHistory
import ScriptedNotes.Proofs.Run.Equality
import ScriptedNotes.Proofs.Page.MarksInLines
