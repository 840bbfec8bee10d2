import Packrat.Checksum
import Packrat.CommandLine.Answer
import Packrat.CommandLine.Arguments
import Packrat.Diagnostics
import Packrat.Grammar.Analysis
import Packrat.Grammar.Basic
import Packrat.Grammar.Binary
import Packrat.Grammar.Document
import Packrat.Grammar.Error
import Packrat.Grammar.Nullability
import Packrat.Grammar.Recursion
import Packrat.Grammar.Reference
import Packrat.Grammar.Warning
import Packrat.Graph.Basic
import Packrat.Graph.Component
import Packrat.Json.Basic
import Packrat.Json.Printer
import Packrat.Json.Reader
import Packrat.Main
import Packrat.Palette
import Packrat.Parse.Basic
import Packrat.Parse.Evaluation
import Packrat.Parse.Memo
import Packrat.Parse.Notes
import Packrat.Parse.Recovery
import Packrat.Parse.Reuse
import Packrat.Parse.Round
import Packrat.Parse.State
import Packrat.Parse.Trace
import Packrat.Parse.Trivia
import Packrat.Program.Arena
import Packrat.Program.Basic
import Packrat.Program.Lexical
import Packrat.Program.Listing
import Packrat.Program.Lowering
import Packrat.Program.Numbering
import Packrat.Proofs.Acceptance
import Packrat.Proofs.Grammar.Checked
import Packrat.Proofs.Lossless
import Packrat.Proofs.Memoization
import Packrat.Proofs.Parse.Coverage
import Packrat.Proofs.Parse.Lossless
import Packrat.Proofs.Parse.Memo
import Packrat.Proofs.Parse.Notes
import Packrat.Proofs.Parse.Plain
import Packrat.Proofs.Parse.Reuse
import Packrat.Proofs.Parse.Richer
import Packrat.Proofs.Parse.Rounds
import Packrat.Proofs.Parse.Run
import Packrat.Proofs.Parse.Simulation
import Packrat.Proofs.Parse.State
import Packrat.Proofs.Parse.Trivia
import Packrat.Proofs.Program.Compiled
import Packrat.Proofs.Program.Lowered
import Packrat.Proofs.Reparse
import Packrat.Proofs.Strict.Carry
import Packrat.Proofs.Strict.Completeness
import Packrat.Proofs.Strict.Derivation
import Packrat.Proofs.Strict.Soundness
import Packrat.Proofs.Terminal.Scan
import Packrat.Proofs.Text.Edit
import Packrat.Proofs.Text.Position
import Packrat.Proofs.Tree.Tiling
import Packrat.Regex.Basic
import Packrat.Regex.Meaning
import Packrat.Regex.Pattern
import Packrat.Regex.Reading
import Packrat.Regex.Scan
import Packrat.Regex.Written
import Packrat.Registry
import Packrat.Terminal
import Packrat.Text.Basic
import Packrat.Text.Edit
import Packrat.Text.Quoted
import Packrat.Tree.Basic
import Packrat.Tree.Json
import Packrat.Tree.Outline
import Packrat.Unicode.Category
import Packrat.Unicode.CharSet
import Packrat.Unicode.Contribution
import Packrat.Unicode.Folding
import Packrat.Unicode.Lookup
import Packrat.Unicode.Property
import Packrat.Unicode.Script
import Packrat.Unicode.ScriptExtension
import Packrat.Unicode.Table
import Packrat.Unicode.Width
import Packrat.Proofs.Parse.ErrorNodes
import Packrat.Proofs.ErrorNodes
import Packrat.Proofs.Grammar.Interpretation
import Packrat.Proofs.Program.Reading
import Packrat.Proofs.Interpretation
import Packrat.Proofs.Grammar.Spelling
import Packrat.Proofs.Parse.Spelling
import Packrat.Proofs.CleanTrees
import Packrat.Proofs.Program.Computed
import Packrat.Proofs.Grammar.Nullability
import Packrat.Proofs.Grammar.Recursion
import Packrat.Proofs.Program.Layers
import Packrat.Proofs.Parse.Idle
import Packrat.Proofs.Parse.Nesting
import Packrat.Proofs.Parse.Depth
import Packrat.Proofs.Termination
import Packrat.Proofs.Limits
import Packrat.Proofs.Parse.Meeting
import Packrat.Proofs.Strict.Idle
import Packrat.Proofs.LeftRecursion
import Packrat.Proofs.Parse.Interruption
import Packrat.Proofs.Interruption
import Packrat.Proofs.Parse.Recovery
import Packrat.Proofs.Parse.Search
import Packrat.Proofs.Recovery
import Packrat.Proofs.Grammar.Binary
import Packrat.Proofs.Grammar.Unambiguous
import Packrat.Proofs.BinaryForm
import Packrat.Proofs.Registry
import Packrat.Proofs.Checksum
import Packrat.Proofs.Fingerprint
import Packrat.Proofs.Guarded.Basic
import Packrat.Proofs.Guarded.Component
import Packrat.Proofs.Guarded.Nullability
import Packrat.Proofs.Guarded.Analysis
import Packrat.Proofs.Program.Kinds
import Packrat.Proofs.Guarded.Lowering
import Packrat.Proofs.Program.WellFormed
import Packrat.Proofs.Compilation
import Packrat.Proofs.Parse.Reached
import Packrat.Proofs.Parse.Log
import Packrat.Proofs.ClearCalls
import Packrat.Proofs.Cursor.Basic
import Packrat.Proofs.Cursor.Agreement
import Packrat.Proofs.Atomicity
import Packrat.Proofs.Text.Bytes
import Packrat.Proofs.Terminal.Bytes
import Packrat.Proofs.Strict.Extent
import Packrat.Proofs.Locality
import Packrat.Proofs.Caching
import Packrat.Proofs.Parse.Anchored
import Packrat.Proofs.Parse.Events
import Packrat.Proofs.Parse.Items
import Packrat.Proofs.Rounds
import Packrat.Proofs.Careful.Basic
import Packrat.Proofs.Careful.Parse
import Packrat.Proofs.Boundaries
import Packrat.Proofs.Graph.Component
import Packrat.Proofs.Grammar.Productivity
import Packrat.Proofs.Productivity
import Packrat.Proofs.Unicode.CharSet
import Packrat.Proofs.Regex.Framing
import Packrat.Proofs.Regex.Escapes
import Packrat.Proofs.Regex.Branches
import Packrat.Proofs.Regex.Empty
import Packrat.Proofs.Regex.Composition
import Packrat.Proofs.Grammar.Token
import Packrat.Proofs.Nullability
import Packrat.Proofs.Graph.Cycle
import Packrat.Proofs.EndlessRecursion
import Packrat.Proofs.Grammar.Vanishing
import Packrat.Proofs.LeastNullability
import Packrat.Proofs.Grammar.Unfailing
import Packrat.Proofs.LeftCycles
import Packrat.Proofs.Shadowing
import Packrat.Proofs.Grammar.Lexical
import Packrat.Proofs.Regex.Spans
import Packrat.Proofs.TokenMeaning
import Packrat.Proofs.Regex.Heads
import Packrat.Proofs.Regex.Liveness
import Packrat.Proofs.Terminal.Longest
import Packrat.Proofs.LongestMatch
import Packrat.Proofs.Interning
import Packrat.Proofs.Json.Writing
import Packrat.Proofs.Json.Scalars
import Packrat.Proofs.Json.Reading
import Packrat.Proofs.Json.Printing
import Packrat.Proofs.Grammar.Described
import Packrat.Proofs.Grammar.Document
import Packrat.Proofs.Grammar.Draft
import Packrat.Proofs.IndexMap
import Packrat.Proofs.Graph.Marked
import Packrat.Proofs.Interchange
import Packrat.Proofs.FurthestFailure
import Packrat.Proofs.Grammar.Roles
import Packrat.Proofs.Roles
import Packrat.Proofs.Parse.Uniform
import Packrat.Proofs.LeadingTrivia
import Packrat.Proofs.Graph.Reachable
import Packrat.Proofs.Grammar.Part
import Packrat.Proofs.Grammar.Pruned
import Packrat.Proofs.Program.Renumbered
import Packrat.Proofs.Parse.Renumbered
import Packrat.Proofs.Program.Part
import Packrat.Proofs.Program.Pushing
import Packrat.Proofs.UnreachableRules
import Packrat.Proofs.Carrying
import Packrat.Proofs.Editing
