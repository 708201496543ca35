import TreePath.Path.Builder
import TreePath.Path.Equality
import TreePath.Path.Render
import TreePath.Query.Session
import TreePath.Table.Backend
import TreePath.Proofs.Concatenation
import TreePath.Proofs.Slots
import TreePath.Proofs.Exploding
import TreePath.Proofs.Places
import TreePath.Proofs.DocumentOrder
import TreePath.Proofs.Selection
import TreePath.Proofs.Counting
import TreePath.Proofs.Tracing
import TreePath.Proofs.Filters
import TreePath.Proofs.ExactOrder
import TreePath.Proofs.Interchange
import TreePath.Proofs.Grammar
import TreePath.Proofs.Reading
import TreePath.Proofs.Completeness
import TreePath.Proofs.Derivation
import TreePath.Proofs.DecimalDigits
import TreePath.Proofs.Rounding
import TreePath.Proofs.FloatText
import TreePath.Proofs.Lexing
import TreePath.Proofs.Spelling
import TreePath.Proofs.WellFormed
import TreePath.Proofs.Failing
import TreePath.Proofs.Placing
import TreePath.Proofs.Checked
import TreePath.Proofs.RoundTrip
import TreePath.Proofs.CheckedWords
import TreePath.Proofs.CheckedReading
import TreePath.Proofs.Compiling
import TreePath.Proofs.Rendering
import TreePath.Proofs.Descending
import TreePath.Proofs.Completing
import TreePath.Proofs.Lookahead
import TreePath.Proofs.FaultPlace
import TreePath.Proofs.Guarded
import TreePath.Proofs.GuardedWalk
import TreePath.Proofs.Absences
import TreePath.Proofs.Planning
import TreePath.Proofs.JsonKeys
import TreePath.Proofs.Spacing
import TreePath.Proofs.Calls
import TreePath.Proofs.Building
import TreePath.Proofs.DistinctKeys
import TreePath.Proofs.SliceIndices
import TreePath.Proofs.Accesses
import TreePath.Proofs.Scopes
import TreePath.Proofs.EqualValues
import TreePath.Proofs.Operators
import TreePath.Proofs.Tiling
import TreePath.Proofs.Quoting
import TreePath.Proofs.Positions
import TreePath.Proofs.Gaps
