import DiagramEditor.Kind
import DiagramEditor.Sequence.Fragment
import DiagramEditor.Sequence.Message
import DiagramEditor.Sequence.Participant

/-!
# The view of a sequence diagram

What a source says about its participants, messages, notes, fragments and boxes, read off the lines
behind the declaration in one pass (`View.ofSource`). Each line is first classified
(`Statement.ofLine`), and each statement then adds to the view in one step (`Reader.step`).

A participant exists as soon as it is declared or takes part in a message. Its first declaration
counts, and places it in the innermost box that is open there.
-/

namespace DiagramEditor.Sequence

/-! ## Statements -/

/-- What a line of a sequence diagram says. -/
inductive Statement where
  /-- A blank line or a comment. -/
  | silent
  | autonumber
  | participant (p : Participant)
  | boxOpen (h : BoxHeader)
  | fragmentOpen (h : FragmentHeader)
  | blockEnd
  /-- The start of another section of a fragment. -/
  | separator (label : Text)
  | note (n : Note)
  | message (m : Message)
  /-- A line that is carried through without being understood. -/
  | other
deriving DecidableEq, Repr

/-- What the line says. Of several readings the first in this order counts. -/
def Statement.ofLine (line : Text) : Statement :=
  let trimmed := Text.trim line
  if isSilent trimmed then .silent
  else if isAutonumber trimmed then .autonumber
  else match Participant.ofLine? line with
    | some p => .participant p
    | none =>
      match BoxHeader.ofLine? line with
      | some h => .boxOpen h
      | none =>
        match FragmentHeader.ofLine? line with
        | some h => .fragmentOpen h
        | none =>
          if isBlockEnd trimmed then .blockEnd
          else match separatorOfLine? line with
            | some (_, label) => .separator label
            | none =>
              match Note.ofLine? line with
              | some n => .note n
              | none =>
                match Message.ofLine? line with
                | some m => .message m
                | none => .other

/-! ## Records -/

/-- A participant with its place. -/
structure ParticipantRecord where
  name : Text
  label : Option Text := none
  type : ParticipantType := .participant
  /-- The line that declares the participant; none if only messages name it. -/
  line : Option Nat := none
  /-- The number of the box that holds the declaration. -/
  box : Option Nat := none
deriving DecidableEq, Repr

namespace ParticipantRecord

/-- The label, or the name of a participant without one. -/
def display (p : ParticipantRecord) : Text :=
  p.label.getD p.name

/-- The participant declared on the line with this number, unless it has been declared before. -/
def declare (line : Nat) (box : Option Nat) (d : Participant) (p : ParticipantRecord) :
    ParticipantRecord :=
  match p.line with
  | some _ => p
  | none => { p with label := d.label, type := d.type, line := some line, box }

end ParticipantRecord

/-- A message with its position. -/
structure MessageRecord where
  index : Nat
  line : Nat
  message : Message
deriving DecidableEq, Repr

/-- A note with its position. -/
structure NoteRecord where
  index : Nat
  line : Nat
  note : Note
deriving DecidableEq, Repr

/-- A fragment with its lines. -/
structure FragmentRecord where
  index : Nat
  kind : FragmentKind
  label : Text
  span : BlockSpan
  /-- The separator lines with their labels. -/
  sections : List (Nat × Text) := []
deriving DecidableEq, Repr

/-- A box with its lines. -/
structure BoxRecord where
  index : Nat
  color : Option Text
  label : Option Text
  span : BlockSpan
deriving DecidableEq, Repr

/-! ## The view -/

/-- Everything that a source says about its sequence diagram. -/
structure View where
  declarationLine : Option Nat := none
  autonumberLine : Option Nat := none
  participants : List ParticipantRecord := []
  messages : List MessageRecord := []
  notes : List NoteRecord := []
  fragments : List FragmentRecord := []
  boxes : List BoxRecord := []
deriving DecidableEq, Repr

namespace View

/-- The participant with this name. -/
def participant? (v : View) (name : Text) : Option ParticipantRecord :=
  v.participants.find? (·.name = name)

/-- The names of all participants. -/
def names (v : View) : List Text :=
  v.participants.map (·.name)

/-- A participant has this name. -/
def hasName (v : View) (name : Text) : Bool :=
  v.names.contains name

/-- The message at this position. -/
def message? (v : View) (index : Nat) : Option MessageRecord :=
  v.messages[index]?

/-- The participant with this name changed by `f`; a new participant if there is none. -/
def alterParticipant (name : Text) (f : ParticipantRecord → ParticipantRecord) :
    List ParticipantRecord → List ParticipantRecord
  | [] => [f { name }]
  | p :: rest => if p.name = name then f p :: rest else p :: alterParticipant name f rest

/-- The view with the participant of this name changed. -/
def alter (name : Text) (f : ParticipantRecord → ParticipantRecord) (v : View) : View :=
  { v with participants := alterParticipant name f v.participants }

end View

/-! ## Reading -/

/-- A block that is open, by its number among the blocks of its kind. -/
inductive OpenBlock where
  | fragment (index : Nat)
  | box (index : Nat)
deriving DecidableEq, Repr

/-- The number of the box, if the block is one. -/
def OpenBlock.box? : OpenBlock → Option Nat
  | fragment _ => none
  | box i => some i

/-- The view of the lines read so far, with the blocks that are still open. -/
structure Reader where
  view : View
  /-- The open blocks, the innermost first. -/
  openBlocks : List OpenBlock := []

namespace Reader

/-- The view with the last line of one block moved. -/
def closeAt (line : Nat) (v : View) : OpenBlock → View
  | .fragment i =>
    { v with fragments := v.fragments.modify i fun f => { f with span := ⟨f.span.start, line⟩ } }
  | .box i => { v with boxes := v.boxes.modify i fun b => { b with span := ⟨b.span.start, line⟩ } }

/-- One more statement, read on the line with this number. -/
def step (r : Reader) (line : Nat) : Statement → Reader
  | .silent => r
  | .autonumber =>
    { r with view := { r.view with autonumberLine := r.view.autonumberLine.or (some line) } }
  | .participant p =>
    { r with view := r.view.alter p.name (·.declare line (r.openBlocks.findSome? (·.box?)) p) }
  | .boxOpen h =>
    let index := r.view.boxes.length
    { view := { r.view with
        boxes := r.view.boxes ++ [⟨index, h.color, h.label, .single line⟩] }
      openBlocks := .box index :: r.openBlocks }
  | .fragmentOpen h =>
    let index := r.view.fragments.length
    { view := { r.view with
        fragments := r.view.fragments ++ [⟨index, h.kind, h.label, .single line, []⟩] }
      openBlocks := .fragment index :: r.openBlocks }
  | .blockEnd =>
    match r.openBlocks with
    | [] => r
    | block :: outer => ⟨closeAt line r.view block, outer⟩
  | .separator label =>
    -- Only the innermost block counts: a separator in a box divides nothing.
    match r.openBlocks with
    | .fragment i :: _ =>
      { r with view := { r.view with
          fragments := r.view.fragments.modify i fun f =>
            { f with sections := f.sections ++ [(line, label)] } } }
    | _ => r
  | .note n =>
    { r with view := { r.view with
        notes := r.view.notes ++ [⟨r.view.notes.length, line, n⟩] } }
  | .message m =>
    -- Whoever sends or receives is a participant, declared or not.
    let view := (r.view.alter m.sender id).alter m.receiver id
    { r with view := { view with
        messages := view.messages ++ [⟨view.messages.length, line, m⟩] } }
  | .other => r

end Reader

/-- What the source says about its sequence diagram. -/
def View.ofSource (s : Source) : View :=
  let start : Reader := { view := { declarationLine := s.declarationOf? .sequence } }
  ((s.body .sequence).foldl (fun r (i, line) => r.step i (.ofLine line)) start).view

end DiagramEditor.Sequence
