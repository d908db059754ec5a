import SchemaSketch.Main
import SchemaSketch.Proofs.Editor.Coherence
import SchemaSketch.Proofs.Editor.Deletion
import SchemaSketch.Proofs.Editor.Display
import SchemaSketch.Proofs.Editor.Drag
import SchemaSketch.Proofs.Editor.Locality
import SchemaSketch.Proofs.Editor.Observation
import SchemaSketch.Proofs.Editor.Refusal
import SchemaSketch.Proofs.Editor.Relayout
import SchemaSketch.Proofs.Editor.Undo
import SchemaSketch.Proofs.Editor.View
import SchemaSketch.Proofs.Editor.Zoom
import SchemaSketch.Proofs.Layout.Erasure
import SchemaSketch.Proofs.Number.Numerals
import SchemaSketch.Proofs.Safety.Sessions
import SchemaSketch.Proofs.Schema.Columns
import SchemaSketch.Proofs.Schema.Concatenation
import SchemaSketch.Proofs.Schema.Lengths
import SchemaSketch.Proofs.Schema.Orderly
import SchemaSketch.Proofs.Schema.ReadingBack
import SchemaSketch.Proofs.Schema.Respelling
import SchemaSketch.Proofs.Script.Events
import SchemaSketch.Proofs.Script.Reading
import SchemaSketch.Proofs.Session.Output
import SchemaSketch.Proofs.Surface.Centering
import SchemaSketch.Proofs.Surface.Columns
import SchemaSketch.Proofs.Surface.Document
import SchemaSketch.Proofs.Surface.Writing
import SchemaSketch.Proofs.Diagram.Independence
import SchemaSketch.Proofs.Schema.Nesting
import SchemaSketch.Proofs.Number.RoundTrip
import SchemaSketch.Proofs.Surface.Markup
import SchemaSketch.Proofs.CommandLine.Configuration
import SchemaSketch.Proofs.CommandLine.Gathering
import SchemaSketch.Proofs.CommandLine.Delivery
