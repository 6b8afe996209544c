import CallFlow.Builtin
import CallFlow.Code
import CallFlow.CommandLine
import CallFlow.Compilation
import CallFlow.Dictionary
import CallFlow.Error
import CallFlow.Event
import CallFlow.Graph.Basic
import CallFlow.Graph.Render
import CallFlow.Graph.Search
import CallFlow.Graph.Verify
import CallFlow.Host.Basic
import CallFlow.Host.FileTree
import CallFlow.Json.Fault
import CallFlow.Json.Number
import CallFlow.Json.Reader
import CallFlow.Json.Scan
import CallFlow.Json.Writer
import CallFlow.Listing
import CallFlow.Lowering.Body
import CallFlow.Lowering.Operand
import CallFlow.Lowering.Program
import CallFlow.Lowering.Reconstruct
import CallFlow.Main
import CallFlow.Module
import CallFlow.Number.Binary64
import CallFlow.Number.Layout
import CallFlow.Number.Shortest
import CallFlow.Operation
import CallFlow.Path
import CallFlow.Project
import CallFlow.Proofs.Code.Checks
import CallFlow.Proofs.Code.Soundness
import CallFlow.Proofs.Lowering.Declarations
import CallFlow.Proofs.Lowering.Encodable
import CallFlow.Proofs.Lowering.LoopCode
import CallFlow.Proofs.Lowering.Meaning
import CallFlow.Proofs.Lowering.Programs
import CallFlow.Proofs.Lowering.Statements
import CallFlow.Proofs.Lowering.Typing
import CallFlow.Proofs.Semantics.Evaluation
import CallFlow.Proofs.Semantics.Source
import CallFlow.Proofs.Semantics.StackMachine
import CallFlow.Proofs.Wasm.Emulation
import CallFlow.Proofs.Wasm.Meaning
import CallFlow.Settings
import CallFlow.Signature
import CallFlow.Slot
import CallFlow.Span
import CallFlow.Text.Printable
import CallFlow.Text.Quoted
import CallFlow.Text.Utf8
import CallFlow.Toml.Quoted
import CallFlow.Toml.Reader
import CallFlow.Toml.Scalar
import CallFlow.Toml.Scan
import CallFlow.Toml.Table
import CallFlow.Toml.Value
import CallFlow.Tree.Basic
import CallFlow.Tree.Reader
import CallFlow.Tree.Writer
import CallFlow.Validity
import CallFlow.ValueType
import CallFlow.Wasm.Binary
import CallFlow.Wasm.Emit
import CallFlow.Wasm.Instruction
import CallFlow.Wasm.Leb128
import CallFlow.Wat.Document
import CallFlow.Wat.Emit
import CallFlow.Proofs.Semantics.StackTyping
import CallFlow.Proofs.Wasm.Sections
import CallFlow.Proofs.Wasm.Typing
import CallFlow.Proofs.Lowering.WellTyped
import CallFlow.Proofs.Text.Utf8
import CallFlow.Proofs.Wasm.Grammar
import CallFlow.Proofs.Wasm.RoundTrip
import CallFlow.Proofs.Wasm.Decoding
import CallFlow.Proofs.Wat.Reading
import CallFlow.Proofs.Wat.Words
import CallFlow.Proofs.Wat.Unfolding
import CallFlow.Proofs.Wat.Agreement
import CallFlow.Proofs.Lowering.Formats
import CallFlow.Proofs.Graph.Chain
import CallFlow.Proofs.Graph.Layout
import CallFlow.Proofs.Semantics.Walking
import CallFlow.Proofs.Graph.Rendering
import CallFlow.Proofs.Compilation
import CallFlow.Proofs.Lowering.Quotations
import CallFlow.Proofs.Json.Reading
import CallFlow.Proofs.Lowering.LoopForms
import CallFlow.Proofs.Tree.RoundTrip
import CallFlow.Proofs.Lowering.Likeness
import CallFlow.Proofs.Lowering.Renaming
import CallFlow.Proofs.Lowering.Order
import CallFlow.Proofs.Lowering.Sessions
import CallFlow.Proofs.Lowering.Tags
import CallFlow.Proofs.Graph.Dominance
import CallFlow.Proofs.Graph.Loops
import CallFlow.Proofs.Graph.Shape
import CallFlow.Proofs.Lowering.Returns
import CallFlow.Proofs.Code.Completion
import CallFlow.Proofs.Lowering.Closing
import CallFlow.Proofs.Wasm.Indices
import CallFlow.Proofs.Wat.Legality
import CallFlow.Proofs.Lowering.Identifiers
import CallFlow.Proofs.Dictionary
import CallFlow.Proofs.SymbolTable
import CallFlow.Proofs.Lowering.SlotLayout
import CallFlow.Proofs.Semantics.Watching
import CallFlow.Proofs.Lowering.ReadOnly
import CallFlow.Proofs.Instantiation
import CallFlow.Proofs.Lowering.Redeclarations
import CallFlow.Proofs.Wasm.Locals
import CallFlow.Proofs.Wasm.Tables
