import DiagramEditor.Edit.Basic
import DiagramEditor.Edit.Op
import DiagramEditor.Sequence.View

/-!
# Edits of sequence diagrams

The edits of participants and boxes and of messages, notes and fragments, and `apply`, which applies
one edit to the source of a sequence diagram.
-/

namespace DiagramEditor.Edit.Sequence

open DiagramEditor.Sequence

/-!
## Participants and boxes

A declaration that is new goes behind the last participant that is declared, and behind the box of
that participant if it is in one (`declarationSlot`), so it never lands in a box. A deleted
participant goes with its messages, and is struck from the notes that name others as well. A new
box takes the declarations of its participants with it.
-/

/-- The participant with this name. -/
def requireParticipant (v : View) (name : Text) : Except EditError ParticipantRecord :=
  match v.participant? name with
  | some p => .ok p
  | none => .error (.participantNotFound name)

/-- The line behind the declaration of the participant, or behind its box. -/
def lineBehind? (v : View) (p : ParticipantRecord) : Option Nat :=
  p.line.map fun line => ((p.box.bind (v.boxes[·]?)).elim line (·.span.stop)) + 1

/-- Where a new declaration goes: behind the declared participants, else behind the line that
numbers the messages, else behind the declaration of the diagram. -/
def declarationSlot (v : View) : Nat :=
  match (v.participants.filterMap (lineBehind? v)).max? with
  | some line => line
  | none => (v.autonumberLine.or v.declarationLine).elim 0 (· + 1)

/-- The name is an identifier that the diagram does not use yet. -/
def requireNewName (v : View) (name : Text) : Except EditError Unit := do
  requireIdentifier (Identifier.checkNode name) name
  if v.hasName name then throw (.alreadyExists name)

/-- What the names of new participants begin with. -/
def nameStem : Text :=
  ['p']

/-- A new participant. -/
def addParticipant (name : Option Text) (label : Text) (type : ParticipantType) (s : Source) :
    Except EditError Edited := do
  let v := View.ofSource s
  let name ← match name with
    | some name => (requireNewName v name).map fun _ => name
    | none => .ok (Fresh.numbered nameStem v.names)
  let (s, declaration) ← ensureDeclaration .sequence v.declarationLine s
  let indent := bodyIndent (some declaration) s
  let text := Participant.render indent ⟨name, nonBlank? label, type⟩
  return ⟨← insertLines (declarationSlot (View.ofSource s)) [text] s, some (.participant name)⟩

/-- The diagram with another label or type for a participant. One that only messages name gets a
declaration. -/
def updateParticipant (name : Text) (label : Option Text) (type : Option ParticipantType)
    (s : Source) : Except EditError Edited := do
  let v := View.ofSource s
  let p ← requireParticipant v name
  let label := match label with
    | some label => nonBlank? label
    | none => p.label
  let render := fun indent => Participant.render indent ⟨name, label, type.getD p.type⟩
  let s ← match p.line with
    | some line => do
      let indent := Text.indent (← lineAt line s)
      replaceLine line (render indent) s
    | none => insertLines (declarationSlot v) [render (bodyIndent v.declarationLine s)] s
  return ⟨s, some (.participant name)⟩

/-! ## Deleting -/

/-- The source with the participant struck from a note that names others as well. -/
def strikeFromNote (name : Text) (s : Source) (r : NoteRecord) : Except EditError Source := do
  let others := r.note.participants.filter (· ≠ name)
  let indent := Text.indent (← lineAt r.line s)
  replaceLine r.line ({ r.note with participants := others }.render indent) s

/-- The diagram without a participant. -/
def deleteParticipant (name : Text) (s : Source) : Except EditError Edited := do
  let v := View.ofSource s
  let p ← requireParticipant v name
  let notes := v.notes.filter fun r => r.note.participants.contains name
  let isOnly := fun (r : NoteRecord) => r.note.participants.all (· = name)
  let messages := v.messages.filter (·.message.involves name)
  -- Changing a line moves no line, so the numbers of the lines to delete stay right.
  let s ← (notes.filter fun r => !isOnly r).foldlM (strikeFromNote name) s
  let lines := p.line.toList ++ messages.map (·.line) ++ (notes.filter isOnly).map (·.line)
  return { source := s.deleteLineSet lines }

/-! ## Boxes -/

/-- The participant, which must not be in a box yet. -/
def requireUnboxed (v : View) (name : Text) : Except EditError ParticipantRecord := do
  let p ← requireParticipant v name
  if p.box.isSome then throw (.participantAlreadyBoxed name)
  return p

/-- The line that opens a box. A label with blanks is quoted unless a color stands in front of
it. -/
def boxHeader (indent label : Text) (color : Option Text) : Text :=
  let colorPart := match color.bind nonBlank? with
    | some color => ' ' :: color
    | none => []
  let labelPart := match nonBlank? label with
    | some label =>
      ' ' :: if label.any Unicode.isSpace && color.isNone then Text.quote label else label
    | none => []
  indent ++ BoxHeader.keyword ++ colorPart ++ labelPart

/-- The declaration of the participant: its line without the indent, or a new one. -/
def declarationText (s : Source) (p : ParticipantRecord) : Except EditError Text :=
  match p.line with
  | some line => (lineAt line s).map Text.trim
  | none => .ok (Participant.render [] ⟨p.name, p.label, p.type⟩)

/-- A new box around some participants. -/
def addBox (label : Text) (color : Option Text) (names : List Text) (s : Source) :
    Except EditError Edited := do
  let v := View.ofSource s
  let members ← names.mapM (requireUnboxed v)
  let indent := bodyIndent v.declarationLine s
  let texts ← members.mapM (declarationText s)
  let moved := members.filterMap (·.line)
  let block := boxHeader indent label color :: texts.map (fun text => indent ++ indentStep ++ text) ++
    [indent ++ "end".toList]
  -- The first declaration that moves marks the place; nothing in front of it is deleted.
  let slot := moved.min?.getD (declarationSlot v)
  return { source := ← insertLines slot block (s.deleteLineSet moved) }

/-!
## Messages, notes and fragments

New messages, notes and fragments are written at the end of the source. A changed message is
written anew on its line.
-/

/-- The message at this position. -/
def requireMessage (v : View) (index : Nat) : Except EditError MessageRecord :=
  match v.message? index with
  | some m => .ok m
  | none => .error (.messageNotFound index)

/-- A new message between two participants of the diagram. -/
def addMessage (sender receiver : Text) (arrow : MessageArrow) (text : Text) (s : Source) :
    Except EditError Edited := do
  let v := View.ofSource s
  let _ ← requireParticipant v sender
  let _ ← requireParticipant v receiver
  let message : Message := ⟨sender, receiver, arrow, none, Text.trim text⟩
  return ⟨s.pushLine (message.render (bodyIndent v.declarationLine s)),
    some (.message v.messages.length)⟩

/-- The message with the parts of the patch. -/
def patched (p : MessagePatch) (m : Message) : Message :=
  { m with
    sender := p.sender.getD m.sender
    receiver := p.receiver.getD m.receiver
    arrow := p.arrow.getD m.arrow
    text := (p.text.map Text.trim).getD m.text }

/-- The diagram with a message changed. -/
def updateMessage (index : Nat) (p : MessagePatch) (s : Source) : Except EditError Edited := do
  let v := View.ofSource s
  let r ← requireMessage v index
  p.sender.forM fun name => discard (requireParticipant v name)
  p.receiver.forM fun name => discard (requireParticipant v name)
  let indent := Text.indent (← lineAt r.line s)
  return ⟨← replaceLine r.line ((patched p r.message).render indent) s, some (.message index)⟩

/-- The diagram without a message. -/
def deleteMessage (index : Nat) (s : Source) : Except EditError Edited := do
  let r ← requireMessage (View.ofSource s) index
  return { source := ← deleteLines r.line 1 s }

/-- How many participants a note with this placement can name. -/
def noteLimit : NotePlacement → Nat
  | .across => 2
  | _ => 1

/-- A new note. Participants beyond the limit are left out. -/
def addNote (placement : NotePlacement) (participants : List Text) (text : Text) (s : Source) :
    Except EditError Edited := do
  let v := View.ofSource s
  if participants.isEmpty then throw (.participantNotFound [])
  let targets := participants.take (noteLimit placement)
  targets.forM fun name => discard (requireParticipant v name)
  let note : Note := ⟨placement, targets, Text.trim text⟩
  return ⟨s.pushLine (note.render (bodyIndent v.declarationLine s)), some (.note v.notes.length)⟩

/-- A new fragment with nothing inside, and with a second section if its kind has several. -/
def addFragment (kind : FragmentKind) (label : Text) (s : Source) : Except EditError Edited := do
  let v := View.ofSource s
  let indent := bodyIndent v.declarationLine s
  let header := indent ++ kind.keyword ++
    match nonBlank? label with
    | some label => ' ' :: label
    | none => []
  let separator := kind.separator?.toList.map (indent ++ ·)
  let lines := header :: separator ++ [indent ++ "end".toList]
  return ⟨lines.foldl (fun s line => s.pushLine line) s, some (.fragment v.fragments.length)⟩

/-- The diagram with its messages numbered, or no longer numbered. -/
def toggleAutonumber (s : Source) : Except EditError Edited := do
  let v := View.ofSource s
  match v.autonumberLine with
  | some line => return { source := ← deleteLines line 1 s }
  | none =>
    let (s, declaration) ← ensureDeclaration .sequence v.declarationLine s
    let indent := bodyIndent (some declaration) s
    return { source := ← insertLines (declaration + 1) [indent ++ "autonumber".toList] s }

/-! ## Any edit -/

/-- The source after the edit. -/
def apply (op : SequenceOp) (s : Source) : Except EditError Edited :=
  match op with
  | .addParticipant name label type => addParticipant name label type s
  | .updateParticipant name label type => updateParticipant name label type s
  | .deleteParticipant name => deleteParticipant name s
  | .addMessage sender receiver arrow text => addMessage sender receiver arrow text s
  | .updateMessage index patch => updateMessage index patch s
  | .deleteMessage index => deleteMessage index s
  | .addNote placement participants text => addNote placement participants text s
  | .addFragment kind label => addFragment kind label s
  | .addBox label color participants => addBox label color participants s
  | .toggleAutonumber => toggleAutonumber s

end DiagramEditor.Edit.Sequence
