import DiagramEditor.Text.Basic
import DiagramEditor.Text.Quoted
import DiagramEditor.Text.Numeral
import DiagramEditor.Text.Span
import DiagramEditor.Identifier.Basic
import DiagramEditor.Identifier.Fresh
import DiagramEditor.Kind
import DiagramEditor.Flowchart.Directive
import DiagramEditor.Flowchart.Reference
import DiagramEditor.Flowchart.View
import DiagramEditor.Json.Reader
import DiagramEditor.Json.Writer
import DiagramEditor.Json.Record
import DiagramEditor.EntityRelation.View
import DiagramEditor.Sequence.View
import DiagramEditor.Document
import DiagramEditor.Edit.Flowchart
import DiagramEditor.Edit.Batch
import DiagramEditor.Edit.Confirmation
import DiagramEditor.Codec.Op
import DiagramEditor.Codec.Objects
import DiagramEditor.Codec.Selection
import DiagramEditor.Config
import DiagramEditor.Render.Timeline
import DiagramEditor.Codec.Saved
import DiagramEditor.Proofs.Flowchart.Label
import DiagramEditor.Proofs.Flowchart.Token
import DiagramEditor.Proofs.Flowchart.Statement
import DiagramEditor.Proofs.Flowchart.Property
import DiagramEditor.Proofs.Text.Numeral
import DiagramEditor.Proofs.Flowchart.Directive
import DiagramEditor.Proofs.Identifier.Fresh
import DiagramEditor.Proofs.Source.Declaration
import DiagramEditor.Proofs.Flowchart.View
import DiagramEditor.Proofs.Edit.Basic
import DiagramEditor.Proofs.Edit.Flowchart.Removal
import DiagramEditor.Proofs.Edit.Flowchart.Restore
import DiagramEditor.Proofs.Edit.Flowchart.Cascade
import DiagramEditor.Proofs.Edit.Flowchart.Delete
import DiagramEditor.Proofs.Edit.Flowchart.Renumber
import DiagramEditor.Proofs.Flowchart.Written
import DiagramEditor.Proofs.Edit.Flowchart.Attachment
import DiagramEditor.Proofs.Edit.Flowchart.Add
import DiagramEditor.Proofs.Edit.Flowchart.Move
import DiagramEditor.Proofs.Edit.Flowchart.Duplicate
import DiagramEditor.Proofs.Edit.Flowchart.Insertion
import DiagramEditor.Proofs.Source.Reload
import DiagramEditor.Proofs.Flowchart.Flat
import DiagramEditor.Proofs.Edit.Flowchart.Flat
import DiagramEditor.Proofs.Session.Transaction
import DiagramEditor.Proofs.Session.Reload
import DiagramEditor.Proofs.Edit.EntityRelation.Delete
import DiagramEditor.Proofs.Sequence.Place
import DiagramEditor.Proofs.Flowchart.Block
import DiagramEditor.Proofs.Edit.Flowchart.Relabel
import DiagramEditor.Proofs.Edit.Flowchart.Relink
import DiagramEditor.Proofs.Edit.EntityRelation.Rename
import DiagramEditor.Proofs.Render.LastWriter
import DiagramEditor.Proofs.Session.Sharing
import DiagramEditor.Proofs.Session.Cycle
import DiagramEditor.Proofs.Extraction.Flowchart
import DiagramEditor.Proofs.Edit.Flowchart.Copy
import DiagramEditor.Proofs.Edit.Flowchart.Connect
import DiagramEditor.Proofs.Edit.Flowchart.Membership
import DiagramEditor.Proofs.Edit.Flowchart.Endpoint
import DiagramEditor.Proofs.Edit.Flowchart.Relocate
import DiagramEditor.Proofs.Edit.Flowchart.Restyle
import DiagramEditor.Proofs.EntityRelation.Attribute
import DiagramEditor.Proofs.Edit.EntityRelation.Update
import DiagramEditor.Proofs.Edit.EntityRelation.Add
import DiagramEditor.Proofs.Source.Renumber
import DiagramEditor.Proofs.Source.Depth
import DiagramEditor.Proofs.Source.Readings
import DiagramEditor.Proofs.Sequence.Line
import DiagramEditor.Proofs.Sequence.Content
import DiagramEditor.Proofs.Sequence.Participants
import DiagramEditor.Proofs.Edit.Sequence.Message
import DiagramEditor.Proofs.Edit.Sequence.Delete
import DiagramEditor.Proofs.Sequence.Insertion
import DiagramEditor.Proofs.Edit.Sequence.Add
import DiagramEditor.Proofs.Sequence.Boxing
import DiagramEditor.Proofs.Edit.Sequence.Box
import DiagramEditor.Proofs.Flowchart.PropertyEdit
import DiagramEditor.Proofs.Edit.Flowchart.Twin
import DiagramEditor.Proofs.Edit.Flowchart.Commute
import DiagramEditor.Proofs.Selection.CarryOver
import DiagramEditor.Proofs.Edit.EntityRelation.Forms
import DiagramEditor.Proofs.Edit.Flowchart.Clear
import DiagramEditor.Proofs.Extraction.Partition
import DiagramEditor.Proofs.Extraction.Subgraph
import DiagramEditor.Proofs.Extraction.EntityRelation
import DiagramEditor.Proofs.Edit.Flowchart.NewNode
import DiagramEditor.Proofs.Markup.Annotation
import DiagramEditor.Proofs.Flowchart.WellFormed
import DiagramEditor.Proofs.Identifier.Allocation
import DiagramEditor.Proofs.Text.Runs
import DiagramEditor.Proofs.Flowchart.References
