import Typeset.Assembly
import Typeset.Assoc
import Typeset.Channel
import Typeset.Code.FormatFault
import Typeset.Code.LabelFormat
import Typeset.Code.Lines
import Typeset.Code.Marker
import Typeset.Config.Basic
import Typeset.Config.Reading
import Typeset.Config.Settings
import Typeset.Datum
import Typeset.Document
import Typeset.Failure
import Typeset.Json.Basic
import Typeset.Json.Entries
import Typeset.Json.Printer
import Typeset.Json.Reader
import Typeset.Latex.Arguments
import Typeset.Latex.Command
import Typeset.Latex.Directive
import Typeset.Latex.Display
import Typeset.Latex.Escape
import Typeset.Latex.Figure
import Typeset.Latex.Link
import Typeset.Latex.Listing
import Typeset.Latex.Lists
import Typeset.Latex.Math
import Typeset.Latex.Section
import Typeset.Latex.Tabular
import Typeset.Mismatch
import Typeset.Operation
import Typeset.Origin
import Typeset.Proofs.Assembled
import Typeset.Proofs.Assoc
import Typeset.Proofs.Code.Lines
import Typeset.Proofs.Code.Listings
import Typeset.Proofs.CodeLabels
import Typeset.Proofs.CodeMarkers
import Typeset.Proofs.ContinuedNumbers
import Typeset.Proofs.CrossReferences
import Typeset.Proofs.DescribedNodes
import Typeset.Proofs.DisplayLabels
import Typeset.Proofs.DistinctLabels
import Typeset.Proofs.DocumentedFailures
import Typeset.Proofs.DroppedSubtrees
import Typeset.Proofs.EmptyKeys
import Typeset.Proofs.EscapeTokens
import Typeset.Proofs.EscapedQuotations
import Typeset.Proofs.Footnotes
import Typeset.Proofs.Frame
import Typeset.Proofs.ItemCounters
import Typeset.Proofs.Json.RoundTrip
import Typeset.Proofs.Json.Scalars
import Typeset.Proofs.LabelKeys
import Typeset.Proofs.Latex.Enumerations
import Typeset.Proofs.Latex.Faultless
import Typeset.Proofs.Latex.Keys
import Typeset.Proofs.Latex.Labels
import Typeset.Proofs.Latex.Marked
import Typeset.Proofs.Latex.MathMarks
import Typeset.Proofs.Latex.Pieces
import Typeset.Proofs.Latex.Signs
import Typeset.Proofs.LineNumbers
import Typeset.Proofs.LongestRuns
import Typeset.Proofs.Matched
import Typeset.Proofs.MathMode
import Typeset.Proofs.MathRuns
import Typeset.Proofs.Notes.Account
import Typeset.Proofs.Notes.Erasure
import Typeset.Proofs.Notes.Keeping
import Typeset.Proofs.Notes.Ledger
import Typeset.Proofs.Notes.Reckoning
import Typeset.Proofs.Notes.Settling
import Typeset.Proofs.Notes.Stage
import Typeset.Proofs.Notes.Tally
import Typeset.Proofs.Notes.Walk
import Typeset.Proofs.Overrides
import Typeset.Proofs.QuietDefinitions
import Typeset.Proofs.Quotations
import Typeset.Proofs.QuotedPassages
import Typeset.Proofs.Quotes.Nesting
import Typeset.Proofs.Quotes.Reading
import Typeset.Proofs.References
import Typeset.Proofs.Render.Arrival
import Typeset.Proofs.Render.Chunks
import Typeset.Proofs.Render.Closed
import Typeset.Proofs.Render.Coupled
import Typeset.Proofs.Render.Delivery
import Typeset.Proofs.Render.Enumerated
import Typeset.Proofs.Render.Failing
import Typeset.Proofs.Render.Follows
import Typeset.Proofs.Render.Frame
import Typeset.Proofs.Render.Gained
import Typeset.Proofs.Render.Labels
import Typeset.Proofs.Render.Marking
import Typeset.Proofs.Render.MathPieces
import Typeset.Proofs.Render.Ordinary
import Typeset.Proofs.Render.Outputs
import Typeset.Proofs.Render.Parts
import Typeset.Proofs.Render.Passage
import Typeset.Proofs.Render.PassedOn
import Typeset.Proofs.Render.Printed
import Typeset.Proofs.Render.Printing
import Typeset.Proofs.Render.Quiet
import Typeset.Proofs.Render.Reindexed
import Typeset.Proofs.Render.Runs
import Typeset.Proofs.Render.Safe
import Typeset.Proofs.Render.Shown
import Typeset.Proofs.Render.Slots
import Typeset.Proofs.Render.Sparing
import Typeset.Proofs.Render.Unkeyed
import Typeset.Proofs.Render.Zones
import Typeset.Proofs.Renderer
import Typeset.Proofs.Resolution
import Typeset.Proofs.Table.Arranged
import Typeset.Proofs.Table.Bars
import Typeset.Proofs.Table.Groups
import Typeset.Proofs.Table.Layout
import Typeset.Proofs.Table.Separators
import Typeset.Proofs.Table.Tiling
import Typeset.Proofs.TableColumns
import Typeset.Proofs.TableLayout
import Typeset.Proofs.TableRoles
import Typeset.Proofs.TableRows
import Typeset.Proofs.TableRules
import Typeset.Proofs.TableSeparators
import Typeset.Proofs.Templates
import Typeset.Proofs.Termination
import Typeset.Proofs.Text.Carries
import Typeset.Proofs.Text.Lines
import Typeset.Proofs.Text.Marks
import Typeset.Proofs.Text.Numbers
import Typeset.Proofs.Traversals
import Typeset.Proofs.Tree.Alike
import Typeset.Proofs.Tree.Ascent
import Typeset.Proofs.Tree.Faultless
import Typeset.Proofs.Tree.Inserted
import Typeset.Proofs.Tree.Merged
import Typeset.Proofs.Tree.Merging
import Typeset.Proofs.Tree.Moved
import Typeset.Proofs.Tree.Occurrences
import Typeset.Proofs.Tree.Ordinary
import Typeset.Proofs.Tree.Prepared
import Typeset.Proofs.Tree.PreparedTypes
import Typeset.Proofs.Tree.Reads
import Typeset.Proofs.Tree.Records
import Typeset.Proofs.Tree.Restored
import Typeset.Proofs.Tree.RoundTrip
import Typeset.Proofs.Tree.Settled
import Typeset.Proofs.Tree.Unkeyed
import Typeset.Proofs.Tree.UnkeyedIndex
import Typeset.Proofs.Tree.Views
import Typeset.Proofs.Tree.WellTyped
import Typeset.Proofs.UrlArguments
import Typeset.Proofs.WellFormed
import Typeset.Proofs.Wrapper
import Typeset.Proofs.ZoneBuffers
import Typeset.Quotes
import Typeset.Reference.Figure
import Typeset.Reference.Index
import Typeset.Reference.Label
import Typeset.Reference.Resolve
import Typeset.Render.Action
import Typeset.Render.Context
import Typeset.Render.Fault
import Typeset.Render.Transcribe
import Typeset.Render.Walk
import Typeset.Table.Columns
import Typeset.Table.Geometry
import Typeset.Table.Rows
import Typeset.Template
import Typeset.Text.Case
import Typeset.Text.Cut
import Typeset.Text.Lines
import Typeset.Text.Number
import Typeset.Text.Path
import Typeset.Text.Quoted
import Typeset.Text.Trim
import Typeset.Tree.Edit
import Typeset.Tree.Element
import Typeset.Tree.Field
import Typeset.Tree.Kind
import Typeset.Tree.MathRun
import Typeset.Tree.Node
import Typeset.Tree.Place
import Typeset.Tree.PlainText
import Typeset.Tree.Prepare
import Typeset.Tree.Record
import Typeset.Tree.Typed
import Typeset.Tree.Walkable
import Typeset.Unicode.Alphanumeric
import Typeset.Unicode.CaseMap
import Typeset.Unicode.Printable
import Typeset.Unicode.Span
import Typeset.Wrapper
import Typeset.Zone
