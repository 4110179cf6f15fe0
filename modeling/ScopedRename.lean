import ScopedRename.Main
import ScopedRename.Proofs.Binding.Candidates
import ScopedRename.Proofs.Binding.IndexIndependence
import ScopedRename.Proofs.Binding.LambdaParameters
import ScopedRename.Proofs.Binding.Nearest
import ScopedRename.Proofs.Binding.OneRole
import ScopedRename.Proofs.Binding.ReceiverTypes
import ScopedRename.Proofs.Binding.Renamed
import ScopedRename.Proofs.Binding.Replay
import ScopedRename.Proofs.Binding.Respelling
import ScopedRename.Proofs.Binding.ScopingRules
import ScopedRename.Proofs.Binding.SideBySide
import ScopedRename.Proofs.Code.Angles
import ScopedRename.Proofs.Code.Brackets
import ScopedRename.Proofs.Code.Extents
import ScopedRename.Proofs.Code.Headers
import ScopedRename.Proofs.Code.Lambdas
import ScopedRename.Proofs.Code.Pairing
import ScopedRename.Proofs.Code.Reach
import ScopedRename.Proofs.Code.Respelling
import ScopedRename.Proofs.Code.Separators
import ScopedRename.Proofs.Code.Statements
import ScopedRename.Proofs.Command.Batch
import ScopedRename.Proofs.Fallible
import ScopedRename.Proofs.Files.Host
import ScopedRename.Proofs.Files.Paths
import ScopedRename.Proofs.Files.Tree
import ScopedRename.Proofs.Outline.Ancestry
import ScopedRename.Proofs.Outline.Bodies
import ScopedRename.Proofs.Outline.Bookkeeping
import ScopedRename.Proofs.Outline.Casting
import ScopedRename.Proofs.Outline.Change
import ScopedRename.Proofs.Outline.Constructors
import ScopedRename.Proofs.Outline.Declarators
import ScopedRename.Proofs.Outline.Effect
import ScopedRename.Proofs.Outline.Framing
import ScopedRename.Proofs.Outline.Initialisers
import ScopedRename.Proofs.Outline.Marks
import ScopedRename.Proofs.Outline.Methods
import ScopedRename.Proofs.Outline.Moves
import ScopedRename.Proofs.Outline.Nesting
import ScopedRename.Proofs.Outline.Registers
import ScopedRename.Proofs.Outline.Renaming
import ScopedRename.Proofs.Outline.Respelling
import ScopedRename.Proofs.Outline.Roles
import ScopedRename.Proofs.Outline.Settled
import ScopedRename.Proofs.Outline.SourceOrder
import ScopedRename.Proofs.Outline.Spelling
import ScopedRename.Proofs.Outline.Structure
import ScopedRename.Proofs.Outline.Texts
import ScopedRename.Proofs.Outline.TypeParameters
import ScopedRename.Proofs.Outline.WellFormed
import ScopedRename.Proofs.Plan.Agreement
import ScopedRename.Proofs.Plan.Blame
import ScopedRename.Proofs.Plan.Cursor
import ScopedRename.Proofs.Plan.Exact
import ScopedRename.Proofs.Plan.FreshName
import ScopedRename.Proofs.Plan.Hygiene
import ScopedRename.Proofs.Plan.IndexIndependence
import ScopedRename.Proofs.Plan.LayoutIndependence
import ScopedRename.Proofs.Plan.Overloads
import ScopedRename.Proofs.Plan.Patch
import ScopedRename.Proofs.Plan.Relexing
import ScopedRename.Proofs.Plan.Respelling
import ScopedRename.Proofs.Plan.Shadowing
import ScopedRename.Proofs.Plan.Staleness
import ScopedRename.Proofs.Plan.Structure
import ScopedRename.Proofs.Plan.TypesAsValues
import ScopedRename.Proofs.Span
import ScopedRename.Proofs.Text.Bytes
import ScopedRename.Proofs.Text.Hashes
import ScopedRename.Proofs.Text.Lines
import ScopedRename.Proofs.Text.Locations
import ScopedRename.Proofs.Text.Positions
import ScopedRename.Proofs.Text.Template
import ScopedRename.Proofs.Token.Layout
import ScopedRename.Proofs.Token.Lossless
import ScopedRename.Proofs.Token.Names
import ScopedRename.Proofs.Token.Reading
import ScopedRename.Proofs.Token.Relexing
import ScopedRename.Proofs.Token.Tiling
import ScopedRename.Proofs.Token.Unterminated
