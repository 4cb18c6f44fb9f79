import UmlText.Clipboard
import UmlText.Color
import UmlText.Color.Keyword
import UmlText.Command
import UmlText.Command.Arguments
import UmlText.Command.Disk
import UmlText.Decimal.Nearest
import UmlText.Decimal.Shortest
import UmlText.Exchange
import UmlText.Failure
import UmlText.Geometry
import UmlText.Geometry.Saturating
import UmlText.Import
import UmlText.Layout
import UmlText.Layout.Actors
import UmlText.Layout.Buckets
import UmlText.Layout.Grid
import UmlText.Layout.Packages
import UmlText.Layout.Placement
import UmlText.Layout.Relationships
import UmlText.Layout.Report
import UmlText.Layout.Settings
import UmlText.Layout.UseCases
import UmlText.Main
import UmlText.Model.Diagram
import UmlText.Model.Element
import UmlText.OrderedMap
import UmlText.Preview
import UmlText.Preview.Markup
import UmlText.Preview.Shape
import UmlText.Proofs.Exchange.Associations
import UmlText.Proofs.Exchange.Elements
import UmlText.Proofs.Exchange.Headers
import UmlText.Proofs.Exchange.Members
import UmlText.Proofs.Exchange.Reading
import UmlText.Proofs.Exchange.RoundTrip
import UmlText.Proofs.Geometry
import UmlText.Proofs.Layout.Actors
import UmlText.Proofs.Layout.Anchoring
import UmlText.Proofs.Layout.Arranging
import UmlText.Proofs.Layout.Blocks
import UmlText.Proofs.Layout.Composing
import UmlText.Proofs.Layout.Containment
import UmlText.Proofs.Layout.Coverage
import UmlText.Proofs.Layout.Fitting
import UmlText.Proofs.Layout.Granting
import UmlText.Proofs.Layout.Levels
import UmlText.Proofs.Layout.Moving
import UmlText.Proofs.Layout.Opening
import UmlText.Proofs.Layout.Placing
import UmlText.Proofs.Layout.Realizing
import UmlText.Proofs.Layout.Rows
import UmlText.Proofs.Layout.Sorting
import UmlText.Proofs.Layout.Strangers
import UmlText.Proofs.Layout.Strategies
import UmlText.Proofs.Reading.Declared
import UmlText.Proofs.Store.Backed
import UmlText.Proofs.Store.Contents
import UmlText.Proofs.Store.Reachable
import UmlText.Proofs.Store.Requests
import UmlText.Proofs.Text.Cutting
import UmlText.Reading.Arrow
import UmlText.Reading.Blueprint
import UmlText.Reading.Diagnostic
import UmlText.Reading.Keyword
import UmlText.Reading.Line
import UmlText.Reading.Parsed
import UmlText.Reading.Reader
import UmlText.Settings
import UmlText.Settings.Toml
import UmlText.Settings.Toml.Quoted
import UmlText.Settings.Toml.Scalar
import UmlText.Settings.Toml.Tree
import UmlText.Settings.Value
import UmlText.Store
import UmlText.Store.Host
import UmlText.Store.Workspace
import UmlText.Text.Blank
import UmlText.Text.Digit
import UmlText.Text.Search
import UmlText.Text.Span
import UmlText.Writing
import UmlText.Proofs.Store.Ownership
import UmlText.Proofs.Store.Drawing
import UmlText.Proofs.Store.Sound
import UmlText.Proofs.Import.Appending
import UmlText.Proofs.Layout.Relating
import UmlText.Interning
import UmlText.Proofs.Import.Independence
import UmlText.Proofs.Reading.Balance
import UmlText.Proofs.Reading.Membership
import UmlText.Proofs.Reading.Outcomes
import UmlText.Proofs.Reading.Rebuilding
import UmlText.Proofs.Reading.Direction
import UmlText.Proofs.Reading.Unlocated
import UmlText.Proofs.Exchange.Comments
import UmlText.Proofs.Exchange.Dangling
import UmlText.Proofs.Exchange.Idempotence
import UmlText.Proofs.Tables
import UmlText.Proofs.Layout.Crossing
import UmlText.Proofs.Reading.Mirroring
import UmlText.Proofs.Reading.Naming
import UmlText.Proofs.Reading.Nesting
import UmlText.Proofs.Layout.Preorder
import UmlText.Proofs.Layout.Bucketing
import UmlText.Proofs.Layout.Spots
import UmlText.Proofs.Layout.Columns
import UmlText.Proofs.Layout.Settling
import UmlText.Proofs.Layout.Scenes
import UmlText.Proofs.Layout.Sharing
import UmlText.Proofs.Layout.Wrapping
import UmlText.Proofs.Layout.Keeping
import UmlText.Proofs.Layout.Floating
import UmlText.Proofs.Layout.Spacing
import UmlText.Proofs.Layout.Banding
import UmlText.Proofs.Reading.Abutting
import UmlText.Proofs.Reading.Resolving
import UmlText.Proofs.Text.Locating
import UmlText.Proofs.Reading.Reporting
import UmlText.Proofs.Layout.Hiding
import UmlText.Proofs.Layout.Ranking
import UmlText.Proofs.Layout.Refusing
import UmlText.Proofs.Reading.Noise
import UmlText.Proofs.Import.Detection
import UmlText.Proofs.Import.Current
import UmlText.Proofs.Preview.Shapes
import UmlText.Proofs.Preview.Sizes
import UmlText.Proofs.Preview.Inside
import UmlText.Proofs.Layout.Connecting
import UmlText.Proofs.Layout.Translating
import UmlText.Proofs.Reading.Charging
import UmlText.Proofs.Layout.Spreading
import UmlText.Proofs.Layout.Descending
import UmlText.Proofs.Layout.Reaching
import UmlText.Proofs.Layout.Bounding
