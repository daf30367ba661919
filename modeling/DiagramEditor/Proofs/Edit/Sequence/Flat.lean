import DiagramEditor.Proofs.Edit.Basic
import DiagramEditor.Proofs.Edit.Sequence.Basic
import DiagramEditor.Proofs.Sequence.Flat

/-!
# Edits of flat sequence diagrams

Names of participants are checked before they are written, or are found in the diagram. Labels, texts
and colors are written as they are given (`SequenceOp.freeTexts`). If those have no line breaks, every
edit of a sequence diagram leaves a flat source behind (`apply_isFlat`).
-/

namespace DiagramEditor

/-- The texts that the edit writes without having checked them. -/
def SequenceOp.freeTexts : SequenceOp → List Text
  | addParticipant _ label _ => [label]
  | updateParticipant _ label _ => label.toList
  | addMessage _ _ _ text => [text]
  | updateMessage _ patch => patch.text.toList
  | addNote _ _ text => [text]
  | addFragment _ label => [label]
  | addBox label color _ => label :: color.toList
  | _ => []

namespace Edit.Sequence

open DiagramEditor.Sequence Text Source

variable {s : Source} {v : View} {name label text : Text} {index : Nat}

/-! ## What is required -/

theorem requireParticipant_isFlat (hv : v.IsFlat) : Ensures (requireParticipant v name) fun p =>
    p.name = name ∧ Text.IsFlat p.name ∧ ∀ text ∈ p.label, Text.IsFlat text := by
  intro p hp
  have hfind := requireParticipant_eq_ok hp
  have hname : p.name = name := by simpa using List.find?_some hfind
  exact ⟨hname, hv.participants p (List.mem_of_find?_eq_some hfind)⟩

theorem isFlat_of_discard (hv : v.IsFlat)
    (h : (discard (requireParticipant v name) : Except EditError Unit) = .ok ()) :
    Text.IsFlat name := by
  obtain ⟨p, hp, -⟩ := map_eq_ok.1 h
  obtain ⟨rfl, hname, -⟩ := requireParticipant_isFlat hv p hp
  exact hname

theorem nonBlank?_isFlat_of {o : Option Text} (ho : ∀ t ∈ o, Text.IsFlat t) :
    ∀ t ∈ o.bind nonBlank?, Text.IsFlat t := by
  intro t ht
  obtain ⟨raw, hraw, ht⟩ := Option.bind_eq_some_iff.1 ht
  exact nonBlank?_isFlat (ho raw hraw) t ht

/-! ## Participants -/

theorem addParticipant_isFlat (h : s.IsFlat) (hlabel : Text.IsFlat label) (name : Option Text)
    (type : ParticipantType) : LeavesFlat (addParticipant name label type s) := by
  have hwrite : ∀ {name : Text}, Text.IsFlat name → LeavesFlat (do
      let declared ← ensureDeclaration .sequence (View.ofSource s).declarationLine s
      let text := Participant.render (bodyIndent (some declared.2) declared.1)
        ⟨name, nonBlank? label, type⟩
      return ⟨← insertLines (declarationSlot (View.ofSource declared.1)) [text] declared.1,
        some (.participant name)⟩) := by
    intro name hname
    refine (ensureDeclaration_isFlat h .sequence _).bind fun _ hs => ?_
    refine (insertLines_isFlat hs (allFlat_cons.2 ⟨?_, allFlat_nil⟩)).bind fun _ hs => .ok hs
    exact Participant.IsFlat.render ⟨hname, nonBlank?_isFlat hlabel⟩ (bodyIndent_isFlat hs _)
  cases name with
  | none => exact hwrite (isFlat_append.2 ⟨by decide, isFlat_ofNat _⟩)
  | some name =>
    refine .after fun name' hname => hwrite ?_
    obtain ⟨⟨⟩, hnew, rfl⟩ := map_eq_ok.1 hname
    obtain ⟨⟨⟩, hcheck, -⟩ := bind_eq_ok.1 hnew
    exact isFlat_of_requireIdentifier (by decide) (by decide) hcheck

theorem updateParticipant_isFlat {label : Option Text} (h : s.IsFlat)
    (hlabel : ∀ text ∈ label, Text.IsFlat text) (type : Option ParticipantType) :
    LeavesFlat (updateParticipant name label type s) := by
  intro edited hok
  obtain ⟨p, hp, hok⟩ := updateParticipant_eq_ok hok
  have hname : p.name = name := by simpa using List.find?_some hp
  have hold := (View.isFlat_ofSource h).participants p (List.mem_of_find?_eq_some hp)
  have hrender : ∀ indent, Text.IsFlat indent → Text.IsFlat (Participant.render indent
      ⟨name, label.elim p.label nonBlank?, type.getD p.type⟩) := by
    refine fun indent hindent => Participant.IsFlat.render ⟨hname ▸ hold.1, ?_⟩ hindent
    cases label with
    | none => exact hold.2
    | some text => exact nonBlank?_isFlat (hlabel text rfl)
  rcases hok with ⟨line, text, -, htext, hok⟩ | hok
  · exact replaceLine_isFlat h (hrender _ (lineAt_isFlat h text htext).indent) _ hok
  · refine insertLines_isFlat h (allFlat_cons.2 ⟨?_, allFlat_nil⟩) _ hok
    exact hrender _ (bodyIndent_isFlat h _)

/-! ## Deleting -/

theorem strikeFromNote_isFlat {r : NoteRecord} (h : s.IsFlat) (hr : r.note.IsFlat) :
    Ensures (strikeFromNote name s r) Source.IsFlat := by
  refine (lineAt_isFlat h).bind fun line hline => replaceLine_isFlat h ?_
  exact Note.IsFlat.render ⟨hr.participants.subset List.filter_sublist.subset, hr.text⟩ hline.indent

theorem deleteParticipant_isFlat (h : s.IsFlat) : LeavesFlat (deleteParticipant name s) := by
  have hv := View.isFlat_ofSource h
  refine .after fun p _ => .bind (Ensures.foldlM h fun r hr s hs => ?_) fun s hs => .ok ?_
  · exact strikeFromNote_isFlat hs (hv.notes r (List.mem_filter.1 (List.mem_filter.1 hr).1).1)
  · exact deleteLineSet_isFlat hs _

/-! ## Boxes -/

theorem boxHeader_isFlat {indent : Text} {color : Option Text} (hindent : Text.IsFlat indent)
    (hlabel : Text.IsFlat label) (hcolor : ∀ text ∈ color, Text.IsFlat text) :
    Text.IsFlat (boxHeader indent label color) := by
  refine isFlat_append.2 ⟨isFlat_append.2 ⟨isFlat_append.2 ⟨hindent, by decide⟩, ?_⟩, ?_⟩
  · split
    · next text htext => exact isFlat_cons.2 ⟨by decide, nonBlank?_isFlat_of hcolor text htext⟩
    · exact isFlat_nil
  · split
    · next text htext =>
      have htext := nonBlank?_isFlat hlabel text htext
      refine isFlat_cons.2 ⟨by decide, ?_⟩
      split
      exacts [htext.quote, htext]
    · exact isFlat_nil

theorem requireUnboxed_isFlat (hv : v.IsFlat) : Ensures (requireUnboxed v name) fun p =>
    Text.IsFlat p.name ∧ ∀ text ∈ p.label, Text.IsFlat text :=
  fun p hp => hv.participants p (List.mem_of_find?_eq_some (requireUnboxed_eq_ok hp))

theorem declarationText_isFlat {p : ParticipantRecord} (h : s.IsFlat)
    (hp : Text.IsFlat p.name ∧ ∀ text ∈ p.label, Text.IsFlat text) :
    Ensures (declarationText s p) Text.IsFlat := by
  rw [declarationText]
  split
  · exact (lineAt_isFlat h).map fun line hline => hline.trim
  · exact .ok (Participant.IsFlat.render ⟨hp.1, hp.2⟩ isFlat_nil)

theorem addBox_isFlat {color : Option Text} (h : s.IsFlat) (hlabel : Text.IsFlat label)
    (hcolor : ∀ text ∈ color, Text.IsFlat text) (names : List Text) :
    LeavesFlat (addBox label color names s) := by
  have hv := View.isFlat_ofSource h
  have hindent := bodyIndent_isFlat h (View.ofSource s).declarationLine
  refine .bind (Ensures.mapM fun name _ => requireUnboxed_isFlat hv) fun members hmembers => ?_
  refine .bind (Ensures.mapM fun p hp => declarationText_isFlat h (hmembers p hp)) fun texts htexts => ?_
  refine .bind (insertLines_isFlat (deleteLineSet_isFlat h _) ?_) fun _ hs => .ok hs
  refine allFlat_append.2 ⟨allFlat_cons.2 ⟨boxHeader_isFlat hindent hlabel hcolor, ?_⟩, ?_⟩
  · exact AllFlat.map htexts fun _ h => isFlat_append.2 ⟨isFlat_append.2 ⟨hindent, by decide⟩, h⟩
  · exact allFlat_cons.2 ⟨isFlat_append.2 ⟨hindent, by decide⟩, allFlat_nil⟩

/-! ## Messages, notes and fragments -/

theorem addMessage_isFlat {sender receiver : Text} (h : s.IsFlat) (htext : Text.IsFlat text)
    (arrow : MessageArrow) : LeavesFlat (addMessage sender receiver arrow text s) := by
  have hv := View.isFlat_ofSource h
  refine (requireParticipant_isFlat hv).bind fun p ⟨hp, hsender, _⟩ => ?_
  refine (requireParticipant_isFlat hv).bind fun q ⟨hq, hreceiver, _⟩ => .ok (pushLine_isFlat h ?_)
  exact Message.IsFlat.render ⟨hp ▸ hsender, hq ▸ hreceiver, htext.trim⟩ (bodyIndent_isFlat h _)

theorem isFlat_of_forM {name : Option Text} (hv : v.IsFlat)
    (h : (name.forM fun name => discard (requireParticipant v name)) = .ok ()) :
    ∀ text ∈ name, Text.IsFlat text := by
  rintro text ⟨⟩
  exact isFlat_of_discard hv h

theorem updateMessage_isFlat {p : MessagePatch} (h : s.IsFlat)
    (htext : ∀ text ∈ p.text, Text.IsFlat text) : LeavesFlat (updateMessage index p s) := by
  have hv := View.isFlat_ofSource h
  refine .after fun r hr => .after fun _ hsender => .after fun _ hreceiver => ?_
  refine .after fun line hline => (replaceLine_isFlat h ?_).bind fun _ hs => .ok hs
  have hmessage := hv.messages r (List.mem_of_getElem? (requireMessage_eq_ok hr))
  refine Message.IsFlat.render ⟨?_, ?_, ?_⟩ (lineAt_isFlat h line hline).indent
  · exact isFlat_getD (isFlat_of_forM hv hsender) hmessage.sender
  · exact isFlat_getD (isFlat_of_forM hv hreceiver) hmessage.receiver
  · refine isFlat_getD (fun text htrim => ?_) hmessage.text
    obtain ⟨raw, hraw, rfl⟩ := Option.map_eq_some_iff.1 htrim
    exact (htext raw hraw).trim

theorem deleteMessage_isFlat (h : s.IsFlat) : LeavesFlat (deleteMessage index s) :=
  .after fun _ _ => (deleteLines_isFlat h).bind fun _ hs => .ok hs

theorem addNote_isFlat (h : s.IsFlat) (htext : Text.IsFlat text) (placement : NotePlacement)
    (participants : List Text) : LeavesFlat (addNote placement participants text s) := by
  rw [addNote]
  split
  · exact .after fun _ h => by cases h
  · refine .after fun _ hnames => .ok (pushLine_isFlat h ?_)
    refine Note.IsFlat.render ⟨fun name hname => ?_, htext.trim⟩ (bodyIndent_isFlat h _)
    exact isFlat_of_discard (View.isFlat_ofSource h) (forM_eq_ok hnames name hname)

theorem addFragment_isFlat (h : s.IsFlat) (hlabel : Text.IsFlat label) (kind : FragmentKind) :
    LeavesFlat (addFragment kind label s) := by
  have hindent := bodyIndent_isFlat h (View.ofSource s).declarationLine
  have hkeyword : Text.IsFlat kind.keyword := by cases kind <;> decide
  have hseparator : AllFlat kind.separator?.toList := by cases kind <;> decide
  refine .ok (pushLines_isFlat h (allFlat_append.2 ⟨allFlat_cons.2 ⟨?_, ?_⟩, ?_⟩))
  · refine isFlat_append.2 ⟨isFlat_append.2 ⟨hindent, hkeyword⟩, ?_⟩
    split
    · next text htext => exact isFlat_cons.2 ⟨by decide, nonBlank?_isFlat hlabel text htext⟩
    · exact isFlat_nil
  · exact hseparator.map fun _ h => isFlat_append.2 ⟨hindent, h⟩
  · exact allFlat_cons.2 ⟨isFlat_append.2 ⟨hindent, by decide⟩, allFlat_nil⟩

theorem toggleAutonumber_isFlat (h : s.IsFlat) : LeavesFlat (toggleAutonumber s) := by
  rw [toggleAutonumber]
  split
  · exact (deleteLines_isFlat h).bind fun _ hs => .ok hs
  · refine (ensureDeclaration_isFlat h .sequence _).bind fun p hp => ?_
    refine (insertLines_isFlat hp (allFlat_cons.2 ⟨?_, allFlat_nil⟩)).bind fun _ hs => .ok hs
    exact isFlat_append.2 ⟨bodyIndent_isFlat hp _, by decide⟩

/-! ## All edits -/

/-- An edit of a flat sequence diagram with flat texts leaves a flat source behind. -/
theorem apply_isFlat {op : SequenceOp} (h : s.IsFlat) (hop : AllFlat op.freeTexts) :
    LeavesFlat (apply op s) := by
  cases op with
  | addParticipant name label type => exact addParticipant_isFlat h (allFlat_cons.1 hop).1 name type
  | updateParticipant name label type =>
    exact updateParticipant_isFlat h (allFlat_toList.1 hop) type
  | deleteParticipant => exact deleteParticipant_isFlat h
  | addMessage sender receiver arrow text =>
    exact addMessage_isFlat h (allFlat_cons.1 hop).1 arrow
  | updateMessage index patch => exact updateMessage_isFlat h (allFlat_toList.1 hop)
  | deleteMessage => exact deleteMessage_isFlat h
  | addNote placement participants text =>
    exact addNote_isFlat h (allFlat_cons.1 hop).1 placement participants
  | addFragment kind label => exact addFragment_isFlat h (allFlat_cons.1 hop).1 kind
  | addBox label color participants =>
    exact addBox_isFlat h (allFlat_cons.1 hop).1 (allFlat_toList.1 (allFlat_cons.1 hop).2)
      participants
  | toggleAutonumber => exact toggleAutonumber_isFlat h

end Edit.Sequence

end DiagramEditor
