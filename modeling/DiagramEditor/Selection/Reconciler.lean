import DiagramEditor.Objects.Basic
import DiagramEditor.Selection.Handle

/-!
# Selections across renderings

A selection is the id of a rendered object together with its kind. The id may be gone or may belong
to another object after the next rendering, so a selection is carried over by its handle: taken from
the objects that it was made in (`Handle.ofSelection?`), and looked up in the new ones
(`Handle.resolve?`).

The `Reconciler` does this for one diagram. An edit may have left the handle of what is to be
selected next; it wins over the current selection and is used up by the next rendering whether it is
found there or not.
-/

namespace DiagramEditor

/-- A selected object. -/
structure Selection where
  id : Text
  kind : ObjectKind
deriving DecidableEq, Repr

namespace Handle

/-- The handle of the selected object, which is the first with its id in the bucket of its kind.
Objects of no known kind have none. -/
def ofSelection? (o : Objects) (s : Selection) : Option Handle :=
  match s.kind with
  | .node => (o.nodes.find? (·.id = s.id)).map fun x => .node x.coreId
  | .edge => (o.edges.find? (·.id = s.id)).map fun x =>
      .edge x.sourceCoreId x.targetCoreId x.linkIndex
  | .subgraph => (o.subgraphs.find? (·.id = s.id)).map fun x => .subgraph x.coreId
  | .entity => (o.entities.find? (·.id = s.id)).map fun x => .entity x.name
  | .relationship => (o.relationships.find? (·.id = s.id)).map fun x => .relationship x.index
  | .participant => (o.participants.find? (·.id = s.id)).map fun x => .participant x.name
  | .message => (o.messages.find? (·.id = s.id)).map fun x => .message x.index
  | .note => (o.notes.find? (·.id = s.id)).map fun x => .note x.index
  | .fragment => (o.fragments.find? (·.id = s.id)).map fun x => .fragment x.index
  | .other => none

/-- The edge between the two ids: the one with the link index if there is one, and the first one
otherwise. -/
def resolveEdge? (o : Objects) (source target : Text) (linkIndex : Option Nat) :
    Option EdgeObject :=
  let candidates := o.edges.filter fun e => e.sourceCoreId = source && e.targetCoreId = target
  (candidates.find? fun e => linkIndex.isSome && e.linkIndex = linkIndex).or candidates.head?

/-- The first object that the handle names. -/
def resolve? (o : Objects) : Handle → Option Selection
  | .edge source target linkIndex =>
    (resolveEdge? o source target linkIndex).map fun x => ⟨x.id, .edge⟩
  | .node coreId => (o.nodeByCoreId? coreId).map fun x => ⟨x.id, .node⟩
  | .subgraph coreId => (o.subgraphs.find? (·.coreId = coreId)).map fun x => ⟨x.id, .subgraph⟩
  | .entity name => (o.entities.find? (·.name = name)).map fun x => ⟨x.id, .entity⟩
  | .relationship index =>
    (o.relationships.find? (·.index = index)).map fun x => ⟨x.id, .relationship⟩
  | .participant name =>
    (o.participants.find? (·.name = name)).map fun x => ⟨x.id, .participant⟩
  | .message index => (o.messages.find? (·.index = index)).map fun x => ⟨x.id, .message⟩
  | .note index => (o.notes.find? (·.index = index)).map fun x => ⟨x.id, .note⟩
  | .fragment index => (o.fragments.find? (·.index = index)).map fun x => ⟨x.id, .fragment⟩

end Handle

/-- What is remembered between two renderings. -/
structure Reconciler where
  /-- What is to be selected after the next rendering. -/
  pending : Option Handle := none
  /-- The objects of the last rendering. -/
  previous : Option Objects := none
deriving DecidableEq, Repr

namespace Reconciler

/-- The reconciler with another object to be selected next. -/
def setPending (h : Handle) (r : Reconciler) : Reconciler :=
  { r with pending := some h }

/-- The reconciler with nothing to be selected next. -/
def clearPending (r : Reconciler) : Reconciler :=
  { r with pending := none }

/-- The current selection in the new objects: kept if its id and kind are there, and otherwise
found by its handle in the objects before. -/
def carryOver? (previous : Option Objects) (o : Objects) (current : Selection) : Option Selection :=
  if o.contains current.id current.kind then some current
  else (previous.bind fun p => Handle.ofSelection? p current).bind (Handle.resolve? o)

/-- The selection after a rendering with these objects, and what is remembered. -/
def reconcile (o : Objects) (current : Option Selection) (r : Reconciler) :
    Option Selection × Reconciler :=
  let selection := match r.pending with
    | some h => h.resolve? o
    | none => current.bind (carryOver? r.previous o)
  (selection, ⟨none, some o⟩)

end Reconciler

end DiagramEditor
