import DiagramEditor.Edit.Batch
import DiagramEditor.Extraction
import DiagramEditor.Render.Scheduler
import DiagramEditor.Selection.Reconciler

/-!
# Sessions

One open diagram with everything derived from it: the document, the objects and the markup of its
last rendering, the selection, and what the user is told. Edits, typed text and the outcomes of
render requests come in one after the other, and each turns the session into the next one.

Rendering is slower than editing, so the objects may belong to an older text than the document has.
What an edit wants selected waits for the next rendering that succeeds. A rendering that fails, or
whose markup cannot be read, leaves objects, markup and selection as they were.
-/

namespace DiagramEditor

/-- A diagram as it is stored. -/
structure SavedDiagram where
  id : Text
  title : Text
  code : Text
  /-- When the diagram was made, in milliseconds. -/
  createdAt : Nat
deriving DecidableEq, Repr

/-- Why a stored diagram cannot be opened. -/
inductive SessionError where
  | invalidId (reason : DiagramIdError)
  | unknownKind
deriving DecidableEq, Repr

namespace SessionError

/-- The text of the error behind this one. -/
def cause : SessionError → Text
  | invalidId reason => reason.message
  | unknownKind => unknownKindMessage

/-- The text shown to the user. -/
def message (e : SessionError) : Text :=
  match e with
  | invalidId _ => "invalid diagram id: ".toList ++ e.cause
  | unknownKind => "unsupported diagram: ".toList ++ e.cause

end SessionError

/-- An open diagram. -/
structure Session where
  id : DiagramId
  title : Text
  createdAt : Nat
  document : Document
  ids : IdAllocator := {}
  reconciler : Reconciler := {}
  objects : Objects := {}
  selection : Option Selection := none
  /-- The markup of the last rendering that succeeded. -/
  svg : Option Text := none
  /-- What the user is told about the last failure. -/
  notice : Option Text := none
deriving DecidableEq

namespace Session

/-! ## Opening and storing -/

/-- A new diagram of this kind. -/
def ofTemplate (id : DiagramId) (title : Text) (kind : Kind) (createdAt : Nat) : Session :=
  { id, title, createdAt, document := { kind, source := Source.ofText kind.template } }

/-- A stored diagram. -/
def ofSaved (saved : SavedDiagram) : Except SessionError Session := do
  let id ← (DiagramId.ofText saved.id).mapError .invalidId
  match Document.ofText? saved.code with
  | some document => return { id, title := saved.title, createdAt := saved.createdAt, document }
  | none => throw .unknownKind

/-- The diagram as it is stored. -/
def toSaved (s : Session) : SavedDiagram :=
  ⟨s.id.text, s.title, s.document.source.toText, s.createdAt⟩

/-! ## Editing -/

/-- A batch of edits. Its handle waits for the next rendering; a refusal is shown to the user. -/
def applyBatch (baseRev : Nat) (ops : List Op) (s : Session) :
    Except EditError BatchResult × Session :=
  match s.document.applyBatch baseRev ops s.ids with
  | (.ok (result, document), ids) =>
    let reconciler := result.handle.elim s.reconciler fun h => s.reconciler.setPending h
    (.ok result, { s with document, ids, reconciler, notice := none })
  | (.error e, ids) => (.error e, { s with ids, notice := some e.message })

/-- The text as the user has typed it. -/
def replaceText (text : Text) (s : Session) : Session :=
  { s with document := (s.document.replaceSource (Source.ofText text)).bumpRev }

/-- Another selection. -/
def select (selection : Option Selection) (s : Session) : Session :=
  { s with selection }

/-- The user has read the notice. -/
def dismissNotice (s : Session) : Session :=
  { s with notice := none }

/-- Another title. -/
def setTitle (title : Text) (s : Session) : Session :=
  { s with title }

/-! ## Rendering -/

/-- The kind of the text, which is the one of the document if the text declares none. -/
def kindOf (source : Source) (s : Session) : Kind :=
  source.kind?.getD s.document.kind

/-- The session after the text has been rendered, if the rendering can be read. -/
def rendered? (text svg : Text) (s : Session) : Option Session :=
  let source := Source.ofText text
  (Extraction.ofMarkup? (s.kindOf source) svg source).map fun e =>
    let (selection, reconciler) := s.reconciler.reconcile e.objects s.selection
    { s with selection, reconciler, objects := e.objects, svg := some e.svg, notice := none }

/-- The session after the renderer has refused a text. -/
def renderFailed (message : Text) (s : Session) : Session :=
  { s with notice := some message }

/-- The session after a render request has come to its end; none if its markup cannot be read. -/
def handleOutcome? (outcome : RenderOutcome) (s : Session) : Option Session :=
  match outcome with
  | .rendered _ text svg => s.rendered? text svg
  | .failed _ message => some (s.renderFailed message)
  | .superseded _ => some s

end Session

end DiagramEditor
