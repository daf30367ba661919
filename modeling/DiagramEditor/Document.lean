import DiagramEditor.EntityRelation.Entity
import DiagramEditor.Flowchart.Subgraph
import DiagramEditor.Kind
import DiagramEditor.Sequence.Fragment

/-!
# Documents

A document is a source together with its kind and a revision number. The kind is read off the
source when the document is made and again whenever the source is replaced; a source that declares
none leaves the kind as it was. Each change of the source counts the revision up by one.
-/

namespace DiagramEditor

/-- How blocks nest in a diagram of this kind. -/
def Kind.blockRules : Kind → BlockRules
  | flowchart => Flowchart.blockRules
  | sequence => Sequence.blockRules
  | er => EntityRelation.blockRules

/-- A source with its kind and revision. -/
structure Document where
  kind : Kind
  source : Source
  rev : Nat := 0
deriving DecidableEq, Repr

namespace Document

/-- The document with this text; none if the text declares no kind. -/
def ofText? (text : Text) : Option Document :=
  let source := Source.ofText text
  source.kind?.map fun kind => { kind, source }

/-- The document with another source, and with the kind that it declares. -/
def replaceSource (source : Source) (d : Document) : Document :=
  { d with source, kind := source.kind?.getD d.kind }

/-- The last revision number. -/
def lastRev : Nat :=
  Text.indexBound - 1

/-- The document with the next revision number. -/
def bumpRev (d : Document) : Document :=
  { d with rev := min (d.rev + 1) lastRev }

end Document

end DiagramEditor
