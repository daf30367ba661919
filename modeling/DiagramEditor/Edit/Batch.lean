import DiagramEditor.Document
import DiagramEditor.Edit.EntityRelation
import DiagramEditor.Edit.Flowchart
import DiagramEditor.Edit.Sequence

/-!
# Batches of edits

Edits come in batches, each made for a revision of the document. A batch is applied as a whole or
not at all (`applyBatch`): it is refused if the document has another revision by now, if one of its
edits is refused, or if an edit leaves the blocks of a source unbalanced that were balanced before
it. Only a batch that is accepted changes the document, and counts its revision up; the allocator of
ids moves on in any case.
-/

namespace DiagramEditor

namespace Edit

/-- The source after one edit of a document of this kind, and the allocator. -/
def applyOp (kind : Kind) (op : Op) (s : Source) (ids : IdAllocator) :
    Except EditError Edited × IdAllocator :=
  match kind, op with
  | .flowchart, .flowchart op => Flowchart.apply op s ids
  | .er, .er op => EntityRelation.apply op s ids
  | .sequence, .sequence op => (Sequence.apply op s, ids)
  | _, _ => (.error (.kindMismatch kind op.kind), ids)

/-- The blocks of the source are balanced. -/
def isBalanced (kind : Kind) (s : Source) : Bool :=
  (s.checkBalance kind.blockRules).isOk

/-- What an edit of the source `before` leaves behind, unless it unbalances the blocks. -/
def keepBalance (kind : Kind) (before : Source) (e : Edited) : Except EditError Edited :=
  -- A source that was unbalanced before may stay so, or nobody could mend it step by step.
  if isBalanced kind before then
    ((e.source.checkBalance kind.blockRules).mapError .source).map fun _ => e
  else .ok e

/-- What the edits leave behind one after the other, and the allocator. The handle is the last one
that an edit gave. -/
def applyOps (kind : Kind) : List Op → Edited → IdAllocator →
    Except EditError Edited × IdAllocator
  | [], e, ids => (.ok e, ids)
  | op :: rest, e, ids =>
    match applyOp kind op e.source ids with
    | (.error err, ids) => (.error err, ids)
    | (.ok next, ids) =>
      match keepBalance kind e.source next with
      | .error err => (.error err, ids)
      | .ok next => applyOps kind rest ⟨next.source, next.handle.or e.handle⟩ ids

end Edit

/-- What an accepted batch answers. -/
structure BatchResult where
  newRev : Nat
  /-- The number of edits. -/
  applied : Nat
  /-- The object that the last edit made or changed that was about a single one. -/
  handle : Option Handle
deriving DecidableEq, Repr

/-- The document after the batch, the answer, and the allocator. A refused batch leaves the
document as it was; an empty one is accepted without a new revision. -/
def Document.applyBatch (baseRev : Nat) (ops : List Op) (d : Document) (ids : IdAllocator) :
    Except EditError (BatchResult × Document) × IdAllocator :=
  -- Before anything else: edits made for another text may name other objects.
  if baseRev ≠ d.rev then (.error (.conflict baseRev d.rev), ids)
  else if ops.isEmpty then (.ok (⟨d.rev, 0, none⟩, d), ids)
  else
    let (result, ids) := Edit.applyOps d.kind ops { source := d.source } ids
    (result.map fun e =>
      let d := (d.replaceSource e.source).bumpRev
      (⟨d.rev, ops.length, e.handle⟩, d), ids)

end DiagramEditor
