import DiagramEditor.Text.Quoted

/-!
# Participants

A participant is declared by `participant <name>` or `actor <name>`, perhaps followed by `as` and
a label. Other types of participants have no keyword of their own: they are written as
`participant <name>@{ "type": "queue" }`.
-/

namespace DiagramEditor.Sequence

/-- The types of participants. -/
inductive ParticipantType where
  | participant
  | actor
  | boundary
  | control
  | entity
  | database
  | collections
  | queue
deriving DecidableEq, Repr

namespace ParticipantType

/-- All types. -/
def all : List ParticipantType :=
  [participant, actor, boundary, control, entity, database, collections, queue]

/-- The name of the type. -/
def name : ParticipantType → Text
  | participant => "participant".toList
  | actor => "actor".toList
  | boundary => "boundary".toList
  | control => "control".toList
  | entity => "entity".toList
  | database => "database".toList
  | collections => "collections".toList
  | queue => "queue".toList

/-- The type with this name. -/
def ofName? (name : Text) : Option ParticipantType :=
  all.find? (·.name = name)

/-- The type has a keyword of its own. -/
def isPrimitive : ParticipantType → Bool
  | participant | actor => true
  | _ => false

end ParticipantType

/-- The declaration of a participant. -/
structure Participant where
  name : Text
  label : Option Text
  type : ParticipantType
deriving DecidableEq, Repr

namespace Participant

/-- The label, or the name of a participant without one. -/
def display (p : Participant) : Text :=
  p.label.getD p.name

/-- What opens the settings of a participant. -/
def settingsOpening : Text :=
  ['@', '{']

/-- The type that the settings name: the first entry `type` with a name that is known. -/
def typeOfSettings? (body : Text) : Option ParticipantType :=
  (Text.splitOn ',' body).findSome? fun entry => do
    let (key, value) ← Text.cutChar? ':' entry
    guard (Text.unquote key = "type".toList)
    ParticipantType.ofName? (Text.unquote value)

/-- The keyword at the front, as the type it stands for, and what follows it. -/
def scanKeyword? (s : Text) : Option (ParticipantType × Text) :=
  match Text.stripFront? ParticipantType.participant.name s with
  | some rest => some (.participant, rest)
  | none => (Text.stripFront? ParticipantType.actor.name s).map fun rest => (.actor, rest)

/-- The name at the front: up to a blank or to the settings. -/
def scanName (s : Text) : Text :=
  let word := s.takeWhile (!Unicode.isSpace ·)
  match Text.cutText? settingsOpening word with
  | some (name, _) => name
  | none => word

/-- The settings at the front, if there are any, as the type they name, and what follows them.
Settings that are opened and never closed make the line unreadable. -/
def scanSettings? (s : Text) : Option (Option ParticipantType × Text) :=
  match Text.stripFront? settingsOpening s with
  | some after => (Text.cutChar? '}' after).map fun (body, rest) => (typeOfSettings? body, rest)
  | none => some (none, s)

/-- The label behind `as`, if the rest of the line is not blank. -/
def label? (rest : Text) : Option (Option Text) :=
  let rest := Text.trim rest
  if rest.isEmpty then some none
  else do
    let label ← Text.stripFront? ['a', 's'] rest
    guard (Text.startsWithSpace label)
    return some (Text.unquote label)

/-- The participant that the line declares. -/
def ofLine? (line : Text) : Option Participant := do
  let (keyword, rest) ← scanKeyword? (Text.trim line)
  guard (Text.startsWithSpace rest)
  let rest := Text.trimStart rest
  let name := scanName rest
  guard !name.isEmpty
  let (type, rest) ← scanSettings? (rest.drop name.length)
  return ⟨name, ← label? rest, type.getD keyword⟩

/-- The written form. A label equal to the name is left out. -/
def render (indent : Text) (p : Participant) : Text :=
  let head :=
    if p.type.isPrimitive then p.type.name ++ ' ' :: p.name
    else ParticipantType.participant.name ++ ' ' :: p.name ++
      ['@', '{'] ++ " \"type\": \"".toList ++ p.type.name ++ ['"', ' ', '}']
  indent ++ head ++
    match p.label with
    | some label => if label = p.name then [] else " as ".toList ++ label
    | none => []

end Participant

end DiagramEditor.Sequence
