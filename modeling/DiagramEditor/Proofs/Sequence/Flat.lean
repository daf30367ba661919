import DiagramEditor.Proofs.Sequence.View
import DiagramEditor.Proofs.Source.Reload

/-!
# Sequence diagrams without line breaks

What is read from a flat line is flat, and so are the names, labels and texts that the view of a
flat source holds (`View.isFlat_ofSource`). The written forms of flat parts are flat as well.
-/

namespace DiagramEditor.Sequence

open Text

variable {s line rest indent name : Text}

/-! ## Participants -/

/-- Neither the name nor the label has a line break. -/
structure Participant.IsFlat (p : Participant) : Prop where
  name : Text.IsFlat p.name
  label : ∀ text ∈ p.label, Text.IsFlat text

namespace Participant

theorem isFlat_scanKeyword? {type : ParticipantType} (h : Text.IsFlat s)
    (hs : scanKeyword? s = some (type, rest)) : Text.IsFlat rest := by
  rw [scanKeyword?] at hs
  split at hs
  · next hrest =>
    cases hs
    exact h.stripFront? hrest
  · obtain ⟨rest', hrest, heq⟩ := Option.map_eq_some_iff.1 hs
    cases heq
    exact h.stripFront? hrest

theorem isFlat_scanName (h : Text.IsFlat s) : Text.IsFlat (scanName s) := by
  rw [scanName]
  split
  · next hcut => exact ((h.takeWhile _).cutText? hcut).1
  · exact h.takeWhile _

theorem isFlat_scanSettings? {type : Option ParticipantType} (h : Text.IsFlat s)
    (hs : scanSettings? s = some (type, rest)) : Text.IsFlat rest := by
  rw [scanSettings?] at hs
  split at hs
  · next hafter =>
    obtain ⟨⟨body, rest'⟩, hcut, heq⟩ := Option.map_eq_some_iff.1 hs
    cases heq
    exact ((h.stripFront? hafter).cutChar? hcut).2
  · cases hs
    exact h

theorem isFlat_label? {label : Option Text} (h : Text.IsFlat s) (hs : label? s = some label) :
    ∀ text ∈ label, Text.IsFlat text := by
  rw [label?] at hs
  split at hs
  · cases hs
    exact nofun
  · obtain ⟨raw, hraw, hs⟩ := Option.bind_eq_some_iff.1 hs
    obtain ⟨-, -, hs⟩ := Option.bind_eq_some_iff.1 hs
    cases hs
    rintro _ ⟨⟩
    exact (h.trim.stripFront? hraw).unquote

theorem isFlat_ofLine? {p : Participant} (h : Text.IsFlat line) (hread : ofLine? line = some p) :
    p.IsFlat := by
  obtain ⟨⟨type, rest⟩, hkeyword, hread⟩ := Option.bind_eq_some_iff.1 hread
  obtain ⟨-, -, hread⟩ := Option.bind_eq_some_iff.1 hread
  obtain ⟨-, -, hread⟩ := Option.bind_eq_some_iff.1 hread
  obtain ⟨⟨settings, after⟩, hsettings, hread⟩ := Option.bind_eq_some_iff.1 hread
  obtain ⟨label, hlabel, hread⟩ := Option.bind_eq_some_iff.1 hread
  cases hread
  have hrest := (isFlat_scanKeyword? h.trim hkeyword).trimStart
  exact ⟨isFlat_scanName hrest, isFlat_label? (isFlat_scanSettings? (hrest.drop _) hsettings) hlabel⟩

theorem isFlat_typeName (type : ParticipantType) : Text.IsFlat type.name := by
  cases type <;> decide

theorem IsFlat.render {p : Participant} (h : p.IsFlat) (hindent : Text.IsFlat indent) :
    Text.IsFlat (p.render indent) := by
  refine isFlat_append.2 ⟨isFlat_append.2 ⟨hindent, ?_⟩, ?_⟩
  · split
    · exact isFlat_append.2 ⟨isFlat_typeName _, isFlat_cons.2 ⟨by decide, h.name⟩⟩
    · refine isFlat_append.2 ⟨isFlat_append.2 ⟨isFlat_append.2 ⟨isFlat_append.2 ⟨isFlat_append.2
        ⟨isFlat_typeName _, isFlat_cons.2 ⟨by decide, h.name⟩⟩, by decide⟩, by decide⟩,
        isFlat_typeName _⟩, by decide⟩
  · split
    · next label hlabel =>
      split
      · exact isFlat_nil
      · exact isFlat_append.2 ⟨by decide, h.label label hlabel⟩
    · exact isFlat_nil

end Participant

/-! ## Messages and notes -/

/-- No text of the message has a line break. -/
structure Message.IsFlat (m : Message) : Prop where
  sender : Text.IsFlat m.sender
  receiver : Text.IsFlat m.receiver
  text : Text.IsFlat m.text

namespace Message

theorem isFlat_scan? {arrow : MessageArrow} (h : Text.IsFlat s)
    (hs : MessageArrow.scan? s = some (arrow, rest)) : Text.IsFlat rest := by
  obtain ⟨m, -, hm⟩ := List.exists_of_findSome?_eq_some hs
  obtain ⟨rest', hrest, heq⟩ := Option.map_eq_some_iff.1 hm
  cases heq
  exact h.stripFront? hrest

theorem isFlat_cut? {arrow : MessageArrow} {a b : Text} (h : Text.IsFlat s)
    (hs : MessageArrow.cut? s = some (a, arrow, b)) : Text.IsFlat a ∧ Text.IsFlat b := by
  induction s generalizing a with
  | nil =>
    have hnil : MessageArrow.cut? [] = none := by decide
    rw [hnil] at hs
    cases hs
  | cons c s ih =>
    obtain ⟨hc, hrest⟩ := isFlat_cons.1 h
    rw [MessageArrow.cut?.eq_def] at hs
    cases hscan : MessageArrow.scan? (c :: s) with
    | some p =>
      rw [hscan] at hs
      cases hs
      exact ⟨isFlat_nil, isFlat_scan? h hscan⟩
    | none =>
      rw [hscan] at hs
      obtain ⟨⟨a', arrow', b'⟩, hcut, heq⟩ := Option.map_eq_some_iff.1 hs
      cases heq
      obtain ⟨ha, hb⟩ := ih hrest hcut
      exact ⟨isFlat_cons.2 ⟨hc, ha⟩, hb⟩

theorem isFlat_scan {act : Option Activation} (h : Text.IsFlat s)
    (hs : Activation.scan s = (act, rest)) : Text.IsFlat rest := by
  rw [Activation.scan.eq_def] at hs
  split at hs
  · cases hs
    exact (isFlat_cons.1 h).2
  · cases hs
    exact (isFlat_cons.1 h).2
  · cases hs
    exact h

theorem isFlat_ofLine? {m : Message} (h : Text.IsFlat line) (hread : ofLine? line = some m) :
    m.IsFlat := by
  obtain ⟨⟨left, text⟩, hcolon, hread⟩ := Option.bind_eq_some_iff.1 hread
  obtain ⟨⟨before, arrow, after⟩, hcut, hread⟩ := Option.bind_eq_some_iff.1 hread
  obtain ⟨-, -, hread⟩ := Option.bind_eq_some_iff.1 hread
  cases hread
  obtain ⟨hleft, htext⟩ := h.trim.cutChar? hcolon
  obtain ⟨hbefore, hafter⟩ := isFlat_cut? hleft hcut
  exact ⟨hbefore.trim, (isFlat_scan hafter.trim rfl).trimStart, htext.trim⟩

theorem IsFlat.render {m : Message} (h : m.IsFlat) (hindent : Text.IsFlat indent) :
    Text.IsFlat (m.render indent) := by
  have harrow : Text.IsFlat m.arrow.token := by cases m.arrow <;> decide
  have hsign : Text.IsFlat (m.activation.map Activation.sign).toList := by
    rcases m.activation with _ | _ | _ <;> decide
  exact isFlat_append.2 ⟨isFlat_append.2 ⟨isFlat_append.2 ⟨isFlat_append.2 ⟨isFlat_append.2
    ⟨hindent, h.sender⟩, harrow⟩, hsign⟩, h.receiver⟩,
    isFlat_cons.2 ⟨by decide, isFlat_cons.2 ⟨by decide, h.text⟩⟩⟩

end Message

/-- No text of the note has a line break. -/
structure Note.IsFlat (n : Note) : Prop where
  participants : AllFlat n.participants
  text : Text.IsFlat n.text

namespace Note

theorem isFlat_stripKeyword? (h : Text.IsFlat s) (hs : stripKeyword? s = some rest) :
    Text.IsFlat rest := by
  rcases Option.or_eq_some_iff.1 hs with hs | ⟨-, hs⟩
  exacts [h.stripFront? hs, h.stripFront? hs]

theorem isFlat_ofLine? {n : Note} (h : Text.IsFlat line) (hread : ofLine? line = some n) :
    n.IsFlat := by
  obtain ⟨rest, hrest, hread⟩ := Option.bind_eq_some_iff.1 hread
  obtain ⟨-, -, hread⟩ := Option.bind_eq_some_iff.1 hread
  obtain ⟨⟨placement, after⟩, hplacement, hread⟩ := Option.bind_eq_some_iff.1 hread
  obtain ⟨⟨targets, text⟩, hcut, hread⟩ := Option.bind_eq_some_iff.1 hread
  obtain ⟨-, -, hread⟩ := Option.bind_eq_some_iff.1 hread
  cases hread
  obtain ⟨p, -, hp⟩ := List.exists_of_findSome?_eq_some hplacement
  obtain ⟨after', hafter, heq⟩ := Option.map_eq_some_iff.1 hp
  cases heq
  have hflat := (isFlat_stripKeyword? h.trim hrest).trimStart.stripFront? hafter
  obtain ⟨htargets, htext⟩ := hflat.cutChar? hcut
  have hnames := (allFlat_splitOn htargets ',').map fun _ => Text.IsFlat.trim
  exact ⟨hnames.subset List.filter_sublist.subset, htext.trim⟩

theorem IsFlat.render {n : Note} (h : n.IsFlat) (hindent : Text.IsFlat indent) :
    Text.IsFlat (n.render indent) := by
  have hplacement : Text.IsFlat n.placement.text := by cases n.placement <;> decide
  exact isFlat_append.2 ⟨isFlat_append.2 ⟨isFlat_append.2 ⟨isFlat_append.2 ⟨hindent, by decide⟩,
    hplacement⟩, isFlat_cons.2 ⟨by decide, h.participants.join (by decide)⟩⟩,
    isFlat_cons.2 ⟨by decide, isFlat_cons.2 ⟨by decide, h.text⟩⟩⟩

end Note

/-! ## Views -/

/-- No text of the statement that an edit may write again has a line break. -/
def Statement.IsFlat : Statement → Prop
  | participant p => p.IsFlat
  | note n => n.IsFlat
  | message m => m.IsFlat
  | _ => True

theorem Statement.isFlat_ofLine (h : Text.IsFlat line) : (ofLine line).IsFlat := by
  rw [ofLine]
  repeat' split
  all_goals try trivial
  · next p hp => exact Participant.isFlat_ofLine? h hp
  · next n hn => exact Note.isFlat_ofLine? h hn
  · next m hm => exact Message.isFlat_ofLine? h hm

/-- No text of the view that an edit may write again has a line break. -/
structure View.IsFlat (v : View) : Prop where
  participants : ∀ p ∈ v.participants, Text.IsFlat p.name ∧ ∀ text ∈ p.label, Text.IsFlat text
  messages : ∀ m ∈ v.messages, m.message.IsFlat
  notes : ∀ n ∈ v.notes, n.note.IsFlat

namespace View.IsFlat

variable {v : View} {r : Reader}

theorem alter {f : ParticipantRecord → ParticipantRecord} (h : v.IsFlat) (hname : Text.IsFlat name)
    (hf : ∀ p : ParticipantRecord, (Text.IsFlat p.name ∧ ∀ text ∈ p.label, Text.IsFlat text) →
      Text.IsFlat (f p).name ∧ ∀ text ∈ (f p).label, Text.IsFlat text) : (v.alter name f).IsFlat where
  participants := forall_alterParticipant h.participants (hf { name } ⟨hname, nofun⟩) hf
  messages := h.messages
  notes := h.notes

theorem step {st : Statement} (h : r.view.IsFlat) (hst : st.IsFlat) (line : Nat) :
    (r.step line st).view.IsFlat := by
  cases st with
  | participant p =>
    refine h.alter hst.name fun q hq => ?_
    rw [ParticipantRecord.declare]
    split
    · exact hq
    · exact ⟨hq.1, hst.label⟩
  | blockEnd =>
    rw [Reader.step]
    split
    · exact h
    · next block _ _ => cases block <;> exact ⟨h.participants, h.messages, h.notes⟩
  | separator label =>
    rw [Reader.step]
    split <;> exact ⟨h.participants, h.messages, h.notes⟩
  | note n =>
    exact ⟨h.participants, h.messages,
      List.forall_mem_append.2 ⟨h.notes, List.forall_mem_singleton.2 hst⟩⟩
  | message m =>
    have hview := (h.alter hst.sender fun _ => id).alter hst.receiver fun _ => id
    exact ⟨hview.participants,
      List.forall_mem_append.2 ⟨hview.messages, List.forall_mem_singleton.2 hst⟩, hview.notes⟩
  | _ => exact ⟨h.participants, h.messages, h.notes⟩

end View.IsFlat

/-- The view of a flat source is flat. -/
theorem View.isFlat_ofSource {source : Source} (h : source.IsFlat) :
    (View.ofSource source).IsFlat := by
  refine Reader.readAll_invariant (P := fun r : Reader => r.view.IsFlat) ⟨nofun, nofun, nofun⟩
    fun p hp r hr => hr.step (Statement.isFlat_ofLine ?_) p.1
  rw [Source.body, Source.numberedFrom_eq] at hp
  have hline := List.mem_map_of_mem (f := Prod.snd) hp
  rw [Source.map_snd_numbered] at hline
  exact h _ (List.drop_subset _ _ hline)

end DiagramEditor.Sequence
