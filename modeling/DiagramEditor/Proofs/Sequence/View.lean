import DiagramEditor.Proofs.Lists
import DiagramEditor.Proofs.Source.Lines
import DiagramEditor.Sequence.View

/-!
# How a sequence diagram is read

A step of the reader adds what one statement says. Every line that the view remembers is a line of
the body (`View.isWithin_ofSource`).
-/

namespace DiagramEditor.Sequence

open Text Source

variable {r : Reader} {lines : List (Nat × Text)} {name : Text} {s : Source}

namespace Reader

/-- The lines read one after the other. -/
def readAll (r : Reader) (lines : List (Nat × Text)) : Reader :=
  lines.foldl (fun r p => r.step p.1 (.ofLine p.2)) r

/-- The reader of a source before its first line. -/
def start (s : Source) : Reader :=
  { view := { declarationLine := s.declarationOf? .sequence } }

/-- What every line keeps, all lines keep. -/
theorem readAll_invariant {P : Reader → Prop} (h : P r)
    (hstep : ∀ p ∈ lines, ∀ r, P r → P (r.step p.1 (.ofLine p.2))) : P (r.readAll lines) :=
  List.foldlRecOn lines _ h fun r hr p hp => hstep p hp r hr

end Reader

theorem View.ofSource_eq (s : Source) :
    View.ofSource s = ((Reader.start s).readAll (s.body .sequence)).view := rfl

@[simp] theorem View.declarationLine_ofSource (s : Source) :
    (View.ofSource s).declarationLine = s.declarationOf? .sequence := by
  refine Reader.readAll_invariant
    (P := fun r => r.view.declarationLine = s.declarationOf? .sequence) rfl fun p _ r hr => ?_
  cases Statement.ofLine p.2 with
  | blockEnd =>
    rw [Reader.step]
    split
    · exact hr
    · next block _ _ => cases block <;> exact hr
  | separator label =>
    rw [Reader.step]
    split <;> exact hr
  | _ => exact hr

theorem View.forall_alterParticipant {f : ParticipantRecord → ParticipantRecord}
    {ps : List ParticipantRecord} {P : ParticipantRecord → Prop} (h : ∀ p ∈ ps, P p)
    (hnew : P (f { name })) (hf : ∀ p, P p → P (f p)) : ∀ p ∈ alterParticipant name f ps, P p := by
  induction ps with
  | nil => exact List.forall_mem_singleton.2 hnew
  | cons p ps ih =>
    obtain ⟨hp, hps⟩ := List.forall_mem_cons.1 h
    rw [alterParticipant]
    split
    · exact List.forall_mem_cons.2 ⟨hf p hp, hps⟩
    · exact List.forall_mem_cons.2 ⟨hp, ih hps⟩

/-! ## Lines -/

/-- Every line that the view remembers and an edit may go to satisfies `P`. -/
structure View.IsWithin (P : Nat → Prop) (v : View) : Prop where
  autonumber : ∀ line ∈ v.autonumberLine, P line
  participants : ∀ p ∈ v.participants, ∀ line ∈ p.line, P line
  messages : ∀ m ∈ v.messages, P m.line
  notes : ∀ n ∈ v.notes, P n.line
  boxes : ∀ b ∈ v.boxes, P b.span.stop

namespace View.IsWithin

variable {P : Nat → Prop} {v : View} {line : Nat}

theorem mono {Q : Nat → Prop} (h : v.IsWithin P) (hPQ : ∀ i, P i → Q i) : v.IsWithin Q where
  autonumber i hi := hPQ i (h.autonumber i hi)
  participants p hp i hi := hPQ i (h.participants p hp i hi)
  messages m hm := hPQ _ (h.messages m hm)
  notes n hn := hPQ _ (h.notes n hn)
  boxes b hb := hPQ _ (h.boxes b hb)

theorem alter {f : ParticipantRecord → ParticipantRecord} (h : v.IsWithin P) (name : Text)
    (hf : ∀ p : ParticipantRecord, (∀ line ∈ p.line, P line) → ∀ line ∈ (f p).line, P line) :
    (v.alter name f).IsWithin P where
  autonumber := h.autonumber
  participants := forall_alterParticipant h.participants (hf { name } nofun) hf
  messages := h.messages
  notes := h.notes
  boxes := h.boxes

theorem closeAt (h : v.IsWithin P) (hline : P line) (b : OpenBlock) :
    (Reader.closeAt line v b).IsWithin P := by
  cases b with
  | fragment i => exact ⟨h.autonumber, h.participants, h.messages, h.notes, h.boxes⟩
  | box i =>
    exact ⟨h.autonumber, h.participants, h.messages, h.notes,
      forall_mem_modify i h.boxes fun _ _ => hline⟩

theorem step (h : r.view.IsWithin P) (hline : P line) (st : Statement) :
    (r.step line st).view.IsWithin P := by
  cases st with
  | autonumber =>
    refine ⟨fun i hi => ?_, h.participants, h.messages, h.notes, h.boxes⟩
    rcases Option.or_eq_some_iff.1 hi with hi | ⟨-, hi⟩
    exacts [h.autonumber i hi, Option.some.inj hi ▸ hline]
  | participant p =>
    refine h.alter p.name fun q hq => ?_
    rw [ParticipantRecord.declare]
    split
    · exact hq
    · rintro _ ⟨⟩
      exact hline
  | boxOpen header =>
    exact ⟨h.autonumber, h.participants, h.messages, h.notes,
      List.forall_mem_append.2 ⟨h.boxes, List.forall_mem_singleton.2 hline⟩⟩
  | fragmentOpen header => exact ⟨h.autonumber, h.participants, h.messages, h.notes, h.boxes⟩
  | blockEnd =>
    rw [Reader.step]
    split
    · exact h
    · exact h.closeAt hline _
  | separator label =>
    rw [Reader.step]
    split
    · exact ⟨h.autonumber, h.participants, h.messages, h.notes, h.boxes⟩
    · exact h
  | note n =>
    exact ⟨h.autonumber, h.participants, h.messages,
      List.forall_mem_append.2 ⟨h.notes, List.forall_mem_singleton.2 hline⟩, h.boxes⟩
  | message m =>
    have hview := (h.alter m.sender fun _ => id).alter m.receiver fun _ => id
    exact ⟨hview.autonumber, hview.participants,
      List.forall_mem_append.2 ⟨hview.messages, List.forall_mem_singleton.2 hline⟩, hview.notes,
      hview.boxes⟩
  | _ => exact h

end View.IsWithin

/-- The lines that the view remembers are lines of the body. -/
theorem View.isWithin_ofSource (s : Source) :
    (View.ofSource s).IsWithin fun i => ∃ text, (i, text) ∈ s.body .sequence := by
  refine Reader.readAll_invariant (P := fun r : Reader => r.view.IsWithin _)
    ⟨nofun, nofun, nofun, nofun, nofun⟩ fun p hp r hr => hr.step ⟨p.2, hp⟩ _

end DiagramEditor.Sequence
