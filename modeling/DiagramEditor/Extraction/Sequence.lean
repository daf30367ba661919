import DiagramEditor.Extraction.Basic
import DiagramEditor.Sequence.View

/-!
# Objects in rendered sequence diagrams

The head of a participant may hold its name as a name; otherwise it stands for the participant at
its own position. Everything else has no names at all and is paired with the source one by one. A
message is drawn as a text and a line, and both are marked.
-/

namespace DiagramEditor.Extraction

open Markup Sequence

/-- Each drawn head with its participant, the first head for each participant. -/
def participantPairs (tree : Tree) (v : Sequence.View) : List (Tag × ParticipantRecord) :=
  let pairs := (tree.tagsWithClass "actor-top").zipIdx.filterMap fun (t, position) =>
    (((t.value? "name").bind v.participant?).or v.participants[position]?).map fun p => (t, p)
  firstOfEach (·.2.name) pairs

/-- The object of a participant. -/
def participantObject (p : ParticipantRecord) : ParticipantObject :=
  ⟨"participant-".toList ++ p.name, p.name, p.display, p.type, p.line⟩

/-- The object of a message. -/
def messageObject (m : MessageRecord) : MessageObject :=
  { id := "msg-".toList ++ Text.ofNat m.index
    index := m.index
    sender := m.message.sender
    receiver := m.message.receiver
    arrow := m.message.arrow
    text := m.message.text
    line := m.line }

/-- The object of a note. -/
def noteObject (n : NoteRecord) : NoteObject :=
  { id := "note-".toList ++ Text.ofNat n.index
    index := n.index
    placement := n.note.placement
    participants := n.note.participants
    text := n.note.text
    line := n.line }

/-- The object of a fragment. -/
def fragmentObject (f : FragmentRecord) : FragmentObject :=
  ⟨"frag-".toList ++ Text.ofNat f.index, f.index, f.kind, f.label, f.span.start, f.span.stop⟩

/-- The tags of the lines of messages. -/
def messageLines (tree : Tree) : List Tag :=
  (tree.elements.map (·.tag)).filter fun t => t.hasClass "messageLine0" || t.hasClass "messageLine1"

/-- The tags of the frames of notes. -/
def noteFrames (tree : Tree) : List Tag :=
  (tree.tagsWithClass "note").filter fun t => t.name.base = "rect".toList

/-- The fragments that are drawn with a label, which are all but highlights. -/
def labelled (v : Sequence.View) : List FragmentRecord :=
  v.fragments.filter (·.kind ≠ .rect)

/-- The objects of a rendered sequence diagram. -/
def sequence (tree : Tree) (source : Source) : Findings :=
  let v := View.ofSource source
  let participants := (participantPairs tree v).map fun p => (p.1, participantObject p.2)
  let messages := v.messages.map messageObject
  -- Texts and lines of messages are drawn apart, each in the order of the source.
  let texts := (tree.tagsWithClass "messageText").zip messages
  let lines := (messageLines tree).zip messages
  let notes := (noteFrames tree).zip (v.notes.map noteObject)
  let fragments := (tree.tagsWithClass "labelText").zip ((labelled v).map fragmentObject)
  withUnmarked tree
    { objects :=
        { participants := participants.map Prod.snd
          messages := texts.map Prod.snd
          notes := notes.map Prod.snd
          fragments := fragments.map Prod.snd }
      marks := participants.map (fun p => (p.1, p.2.id)) ++ texts.map (fun p => (p.1, p.2.id)) ++
        lines.map (fun p => (p.1, p.2.id)) ++ notes.map (fun p => (p.1, p.2.id)) ++
        fragments.map fun p => (p.1, p.2.id) }

end DiagramEditor.Extraction
