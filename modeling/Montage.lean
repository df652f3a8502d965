import Montage.Cli.Arguments
import Montage.Cli.Outline
import Montage.Cli.Run
import Montage.Color.Basic
import Montage.Color.Named
import Montage.Color.Reader
import Montage.Compile.Film
import Montage.Compile.Leaf
import Montage.Compile.Scene
import Montage.Compile.Streams
import Montage.Compile.Workshop
import Montage.Config
import Montage.ConfigStore
import Montage.Decimal.Exact
import Montage.Decimal.Literal
import Montage.Decimal.Shortest
import Montage.Failure
import Montage.Graph.Basic
import Montage.Graph.Filter
import Montage.Graph.Text
import Montage.Host
import Montage.Json.Reader
import Montage.Json.Value
import Montage.Json.Writer
import Montage.Listing.Document
import Montage.Listing.Film
import Montage.Listing.Measure
import Montage.Listing.Scene
import Montage.Main
import Montage.Markup.Document
import Montage.Markup.Element
import Montage.Markup.Event
import Montage.Markup.File
import Montage.Markup.Node
import Montage.Markup.Schema
import Montage.Measure.Calculation
import Montage.Measure.Length
import Montage.Measure.PixelCount
import Montage.Measure.Resolution
import Montage.Measure.Span
import Montage.Measure.Timescale
import Montage.Measure.Word
import Montage.Media.Cache
import Montage.Media.Info
import Montage.Media.Prober
import Montage.Media.Report
import Montage.Output.Format
import Montage.Output.Job
import Montage.Output.Plan
import Montage.Output.Progress
import Montage.Output.Run
import Montage.Path
import Montage.Preview.Pick
import Montage.Preview.Still
import Montage.Proofs.Compile.Books
import Montage.Proofs.Compile.Content
import Montage.Proofs.Compile.Growth
import Montage.Proofs.Compile.Meaning
import Montage.Proofs.Compile.Reel
import Montage.Proofs.Compile.Requests
import Montage.Proofs.Compile.Standard
import Montage.Proofs.Compile.Stills
import Montage.Proofs.Compile.Visits
import Montage.Proofs.Compile.Whole
import Montage.Proofs.Format.Basic
import Montage.Proofs.Format.Film
import Montage.Proofs.Format.Leaves
import Montage.Proofs.Format.Presence
import Montage.Proofs.Graph.Checked
import Montage.Proofs.Graph.Decode
import Montage.Proofs.Graph.Linear
import Montage.Proofs.Graph.Marks
import Montage.Proofs.Graph.Readable
import Montage.Proofs.Output.Arguments
import Montage.Proofs.Output.Wiring
import Montage.Proofs.Preview.Pick
import Montage.Proofs.Preview.Schedule
import Montage.Proofs.Scene.Boxes
import Montage.Proofs.Scene.Built
import Montage.Proofs.Scene.Memory
import Montage.Proofs.Scene.Nodes
import Montage.Proofs.Scene.Streams
import Montage.Proofs.Time.Document
import Montage.Proofs.Time.Lasting
import Montage.Proofs.Time.Leaves
import Montage.Proofs.Time.Length
import Montage.Proofs.Time.Starts
import Montage.Proofs.Time.Sync
import Montage.Rehearsal.Files
import Montage.Rehearsal.Machine
import Montage.Rehearsal.Script
import Montage.Rehearsal.Shell
import Montage.Rehearsal.Word
import Montage.Scene.Basic
import Montage.Scene.Build
import Montage.Scene.Extent
import Montage.Scene.Layout
import Montage.Sheet.Basic
import Montage.Sheet.Block
import Montage.Sheet.Selector
import Montage.Sheet.Token
import Montage.Style.Basic
import Montage.Style.Cascade
import Montage.Style.Declaration
import Montage.Style.Edges
import Montage.Style.Keyword
import Montage.Tag
import Montage.Text.Blank
import Montage.Text.Shell
import Montage.Text.Split
import Montage.ValueError
import Montage.Proofs.Layout.Placement
import Montage.Proofs.Measure.Share
import Montage.Proofs.Scene.Draft
import Montage.Proofs.Scene.Normal
import Montage.Proofs.Style.Precedence
import Montage.Proofs.Layout.Room
import Montage.Proofs.Compile.Canvases
import Montage.Proofs.Scene.Locality
import Montage.Proofs.Compile.Origin
import Montage.Proofs.Compile.Reuse
import Montage.Proofs.Compile.Avoids
import Montage.Proofs.Measure.Order
import Montage.Proofs.Preview.Shown
import Montage.Proofs.Preview.Overlays
import Montage.Proofs.Preview.Layers
import Montage.Proofs.Preview.Seeks
import Montage.Proofs.Layout.Mirror
import Montage.Proofs.Sheet.Selection
import Montage.Proofs.Sheet.Reading
import Montage.Proofs.Sheet.Scan
import Montage.Proofs.Sheet.Words
import Montage.Proofs.Sheet.Printed
import Montage.Proofs.Sheet.Lookahead
import Montage.Proofs.Sheet.Place
import Montage.Proofs.Sheet.Comments
import Montage.Proofs.Sheet.Whole
import Montage.Proofs.Sheet.Entries
import Montage.Proofs.Markup.Documents
import Montage.Proofs.Markup.Texts
import Montage.Proofs.Output.Kept
import Montage.Proofs.Output.Extension
import Montage.Proofs.Text.Ends
import Montage.Proofs.Color.Forms
import Montage.Proofs.Style.Border
import Montage.Proofs.Color.Numbers
import Montage.Proofs.Color.Steps
import Montage.Proofs.Color.Functions
import Montage.Proofs.Text.Quoting
import Montage.Proofs.Measure.Words
import Montage.Proofs.Layout.Shape
import Montage.Proofs.Compile.Steps
import Montage.Proofs.Compile.Spares
import Montage.Proofs.Measure.Passage
import Montage.Proofs.Style.Recount
import Montage.Proofs.Scene.Recount
import Montage.Proofs.Compile.Mirrors
import Montage.Proofs.Compile.Recount
import Montage.Proofs.Layout.Overflow
import Montage.Proofs.Time.Longest
import Montage.Proofs.Layout.Stacking
import Montage.Proofs.Media.Recall
import Montage.Proofs.Markup.Lines
import Montage.Proofs.Lists
import Montage.Proofs.Sheet.Grammar
import Montage.Proofs.Markup.Trees
