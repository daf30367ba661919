import DiagramEditor.Proofs.Edit.Declared
import DiagramEditor.Proofs.Edit.Sequence.Basic
import DiagramEditor.Proofs.Edit.Sequence.Message
import DiagramEditor.Proofs.Identifier.Fresh
import DiagramEditor.Proofs.Sequence.Insertion

/-!
# A new participant is in no box

The line for a new participant goes behind the declaration of another one, behind the box of that one,
behind the line that numbers the messages or behind the declaration of the diagram. In front of none of
these places a box is open, as long as boxes do not overlap (`exists_slot`). So the participant is in no
box, and everything else is what it was, on lines further down (`applyOps_addParticipant`).
-/

namespace DiagramEditor

open Source Text

namespace Sequence

variable {s : Source}

/-- No box is opened while another one is open. -/
def View.BoxesApart (v : View) : Prop :=
  v.boxes.Pairwise fun b c => b.span.stop < c.span.start

instance (v : View) : Decidable v.BoxesApart :=
  inferInstanceAs (Decidable (List.Pairwise _ _))

/-- Where a box ends, no other one goes on. -/
theorem View.BoxesApart.not_around {v : View} (h : v.BoxesApart) {b c : BoxRecord} (hb : b ∈ v.boxes)
    (hc : c ∈ v.boxes) (hspan : b.span.start ≤ b.span.stop) :
    ¬(c.span.start ≤ b.span.stop ∧ b.span.stop < c.span.stop) := by
  obtain ⟨i, hi, rfl⟩ := List.getElem_of_mem hb
  obtain ⟨j, hj, rfl⟩ := List.getElem_of_mem hc
  have hlt := List.pairwise_iff_getElem.1 h
  rintro ⟨hstart, hstop⟩
  rcases Nat.lt_trichotomy i j with hij | rfl | hij
  · have := hlt i j hi hj hij
    omega
  · omega
  · have := hlt j i hj hi hij
    omega

theorem Participant.isWritable_of_isIdent {d : Participant} (hname : Identifier.isIdent d.name = true)
    (hlabel : ∀ text ∈ d.label, text ≠ [] ∧ IsTrimmed text ∧ unquote text = text) :
    d.IsWritable where
  name_ne_nil := ne_nil_of_isIdent hname
  name_solid _ hc := isSpace_of_mem_isIdent hname hc
  opening := by
    rw [hasText, Option.isSome_eq_false_iff, Option.isNone_iff_eq_none]
    by_contra hne
    obtain ⟨⟨front, back⟩, hcut⟩ := Option.ne_none_iff_exists'.1 hne
    have hat : '@' ∈ d.name := by
      rw [cutText?_eq_some hcut]
      simp [settingsOpening]
    exact not_mem_of_isIdent hname (by decide) hat
  label := hlabel

end Sequence

namespace Edit.Sequence

open DiagramEditor.Sequence

variable {s s₁ s' : Source} {name label : Text} {p : ParticipantRecord} {slot line : Nat}

/-! ## The place -/

theorem box?_readerAt_eq_none (hbalance : s.checkBalance blockRules = .ok ()) {k : Nat}
    (h : ∀ b ∈ (View.ofSource s).boxes,
      ¬(b.span.start < s.bodyIndex .sequence + k ∧ s.bodyIndex .sequence + k ≤ b.span.stop)) :
    (readerAt s k).box? = none := by
  refine List.findSome?_eq_none_iff.2 fun c hc => ?_
  cases c with
  | fragment i => rfl
  | box i =>
    obtain ⟨b, hb, hstart, hstop⟩ := exists_box_of_open hbalance hc
    exact absurd ⟨hstart, hstop⟩ (h b (List.mem_of_getElem? hb))

/-- Behind a declaration outside of all boxes, and behind the box of a declaration, no box is open. -/
theorem exists_slot_of_participant (hbalance : s.checkBalance blockRules = .ok ())
    (hapart : (View.ofSource s).BoxesApart) (hp : p ∈ (View.ofSource s).participants)
    (hslot : lineBehind? (View.ofSource s) p = some slot) :
    ∃ k, slot = s.bodyIndex .sequence + k ∧ (readerAt s k).box? = none := by
  obtain ⟨line, hline, rfl⟩ := Option.map_eq_some_iff.1 hslot
  obtain ⟨_, ⟨k, text, rfl, htext, hstay, rfl⟩, hbox⟩ := (isPlaced_ofSource s).participants p hp _ hline
  cases hpbox : p.box with
  | none =>
    refine ⟨k + 1, rfl, ?_⟩
    rw [← Statement.blockStep_ofLine] at hstay
    rw [Reader.box?, readerAt_succ htext, (Reader.step_of_stay hstay _ _).2.2, ← hbox, hpbox]
  | some i =>
    rw [hpbox, eq_comm, List.findSome?_eq_some_iff] at hbox
    obtain ⟨inner, c, outer, hopen, hc, -⟩ := hbox
    obtain rfl : c = .box i := by
      cases c with
      | fragment j => cases hc
      | box j => rw [OpenBlock.box?, Option.some.injEq] at hc; rw [hc]
    obtain ⟨b, hb, hstart, hstop⟩ := exists_box_of_open hbalance
      (hopen ▸ List.mem_append_right _ List.mem_cons_self)
    have hk : b.span.stop + 1 =
        s.bodyIndex .sequence + (b.span.stop + 1 - s.bodyIndex .sequence) := by
      omega
    refine ⟨b.span.stop + 1 - s.bodyIndex .sequence, ?_, box?_readerAt_eq_none hbalance ?_⟩
    · rw [Option.bind_some, hb, Option.elim_some, ← hk]
    · intro c hc
      rw [← hk]
      have := hapart.not_around (List.mem_of_getElem? hb) hc (by omega)
      omega

/-- In front of the place for a new declaration no box is open. -/
theorem exists_slot {d : Nat} (hdecl : s.declarationOf? .sequence = some d)
    (hbalance : s.checkBalance blockRules = .ok ()) (hapart : (View.ofSource s).BoxesApart)
    (hauto : ∀ line ∈ (View.ofSource s).autonumberLine, ∀ b ∈ (View.ofSource s).boxes,
      b.span.contains line = false) :
    ∃ k, declarationSlot (View.ofSource s) = s.bodyIndex .sequence + k ∧
      (readerAt s k).box? = none := by
  rw [declarationSlot]
  split
  · next slot hmax =>
    obtain ⟨p, hp, hslot⟩ := List.mem_filterMap.1 (List.max?_mem hmax)
    exact exists_slot_of_participant hbalance hapart hp hslot
  · cases hline : (View.ofSource s).autonumberLine with
    | some line =>
      have hle : s.bodyIndex .sequence ≤ line := by
        obtain ⟨text, hmem⟩ := (View.isWithin_ofSource s).autonumber line hline
        rw [body_eq_numbered] at hmem
        exact (mem_numbered.1 hmem).1
      refine ⟨line + 1 - s.bodyIndex .sequence, by simp; omega, box?_readerAt_eq_none hbalance ?_⟩
      intro b hb
      have hout := hauto line hline b hb
      simp only [BlockSpan.contains, Bool.and_eq_false_iff, decide_eq_false_iff_not] at hout
      omega
    | none =>
      refine ⟨0, ?_, rfl⟩
      rw [View.declarationLine_ofSource, hdecl, bodyIndex, hdecl]
      rfl

/-! ## The source with a declaration -/

/-- The second source is the first one with a declaration of the diagram, perhaps one on top. -/
structure IsGround (s s₁ : Source) (d : Nat) (g : Nat → Nat) : Prop where
  declared : s₁.declarationOf? .sequence = some d
  lt : ∀ i j, i < j → g i < g j
  view : View.ofSource s₁ = ((View.ofSource s).moved g).withDeclaration d
  balance : s.checkBalance blockRules = .ok () → s₁.checkBalance blockRules = .ok ()

theorem exists_ensureDeclaration (s : Source) : ∃ s₁ d g,
    ensureDeclaration .sequence (View.ofSource s).declarationLine s = .ok (s₁, d) ∧
      IsGround s s₁ d g := by
  obtain ⟨s₁, hensure, hground⟩ := Edit.exists_ensureDeclaration .sequence s
  rw [View.declarationLine_ofSource]
  exact ⟨s₁, _, (· + topLines .sequence s), hensure, hground.declaration,
    fun _ _ hlt => Nat.add_lt_add_right hlt _, View.ofSource_moved hground.declaration hground.body,
    hground.balance⟩

namespace IsGround

variable {d : Nat} {g : Nat → Nat} (h : IsGround s s₁ d g)

include h

theorem names : (View.ofSource s₁).names = (View.ofSource s).names := by
  rw [View.names, View.names, h.view]
  simp [View.withDeclaration, View.moved, ParticipantRecord.moved]

theorem boxesApart (hapart : (View.ofSource s).BoxesApart) : (View.ofSource s₁).BoxesApart := by
  rw [View.BoxesApart, h.view]
  exact List.pairwise_map.2 (hapart.imp fun hlt => h.lt _ _ hlt)

theorem autonumber_notMem (hauto : ∀ line ∈ (View.ofSource s).autonumberLine,
    ∀ b ∈ (View.ofSource s).boxes, b.span.contains line = false) :
    ∀ line ∈ (View.ofSource s₁).autonumberLine, ∀ b ∈ (View.ofSource s₁).boxes,
      b.span.contains line = false := by
  rw [h.view]
  intro _ hline _ hb
  obtain ⟨line, hold, rfl⟩ := Option.map_eq_some_iff.1 hline
  obtain ⟨b, hmem, rfl⟩ := List.mem_map.1 hb
  exact (BlockSpan.contains_moved h.lt b.span line).trans (hauto line hold b hmem)

end IsGround

/-! ## The edit -/

/-- The name that a new participant gets: the one that is asked for, or else a free one with a number. -/
def newName (name : Option Text) (v : View) : Text :=
  name.getD (Fresh.numbered nameStem v.names)

section NewName

variable {name : Option Text}
  (hname : ∀ wanted ∈ name, Identifier.checkNode wanted = .ok () ∧ wanted ∉ (View.ofSource s).names)

include hname

theorem isIdent_newName : Identifier.isIdent (newName name (View.ofSource s)) = true := by
  cases name with
  | some wanted => exact isIdent_of_checkNode (hname wanted rfl).1
  | none =>
    rw [Identifier.isIdent, Bool.and_eq_true, List.all_eq_true]
    refine ⟨rfl, fun c hc => ?_⟩
    rcases List.mem_append.1 hc with hc | hc
    · obtain rfl := List.mem_singleton.1 hc
      decide
    · exact Identifier.isIdentChar_of_isDigit (isDigit_of_mem_ofNat hc)

theorem newName_notMem
    (hserial : name = none → (View.ofSource s).names.length + 1 < Fresh.lastSerial) :
    newName name (View.ofSource s) ∉ (View.ofSource s).names := by
  cases name with
  | some wanted => exact (hname wanted rfl).2
  | none => exact Fresh.numbered_notMem (hserial rfl) nameStem

theorem addParticipant_eq {type : ParticipantType} {d : Nat}
    (hensure : ensureDeclaration .sequence (View.ofSource s).declarationLine s = .ok (s₁, d))
    (hinsert : insertLines (declarationSlot (View.ofSource s₁)) [Participant.render (bodyIndent (some d) s₁)
      ⟨newName name (View.ofSource s), nonBlank? label, type⟩] s₁ = .ok s') :
    addParticipant name label type s =
      .ok ⟨s', some (.participant (newName name (View.ofSource s)))⟩ := by
  cases name with
  | some wanted =>
    have hrequire : requireNewName (View.ofSource s) wanted = .ok () := by
      simp [requireNewName, requireIdentifier_eq_ok_iff.2 (hname wanted rfl).1, View.hasName,
        (hname wanted rfl).2, bind, Except.bind, pure, Except.pure]
    rw [newName, Option.getD_some] at hinsert ⊢
    rw [addParticipant]
    simp only [hrequire, Except.map, bind, Except.bind, hensure, hinsert]
    rfl
  | none =>
    rw [newName, Option.getD_none] at hinsert ⊢
    rw [addParticipant]
    simp only [bind, Except.bind, hensure, hinsert]
    rfl

end NewName

/-- The view has one more participant, and everything else is what it was, with its lines moved. -/
structure AddsParticipant (k : Nat) (p : ParticipantRecord) (f : Nat → Nat) (v v' : View) : Prop where
  position : k ≤ v.participants.length
  participants : v'.participants = (v.participants.map (·.moved f)).insertIdx k p
  messages : v'.messages = v.messages.map (·.moved f)
  others : KeepsOthers f v v'

/-- The line for a new participant is put in where no box is open. -/
theorem exists_addsParticipant (type : ParticipantType)
    (hbalance : s.checkBalance blockRules = .ok ()) (hapart : (View.ofSource s).BoxesApart)
    (hauto : ∀ line ∈ (View.ofSource s).autonumberLine, ∀ b ∈ (View.ofSource s).boxes,
      b.span.contains line = false)
    (hwritable : Participant.IsWritable ⟨name, nonBlank? label, type⟩)
    (hnew : name ∉ (View.ofSource s).names) : ∃ s₁ d s' k p f,
      ensureDeclaration .sequence (View.ofSource s).declarationLine s = .ok (s₁, d) ∧
      insertLines (declarationSlot (View.ofSource s₁))
        [Participant.render (bodyIndent (some d) s₁) ⟨name, nonBlank? label, type⟩] s₁ = .ok s' ∧
      s'.checkBalance blockRules = .ok () ∧ p.name = name ∧ p.type = type ∧
      p.display = (nonBlank? label).getD name ∧ p.box = none ∧ (∀ i j, i < j → f i < f j) ∧
      AddsParticipant k p f (View.ofSource s) (View.ofSource s') := by
  obtain ⟨s₁, d, g, hensure, hground⟩ := exists_ensureDeclaration s
  obtain ⟨k, hslot, hbox⟩ := exists_slot hground.declared (hground.balance hbalance)
    (hground.boxesApart hapart) (hground.autonumber_notMem hauto)
  have hle : s₁.bodyIndex .sequence + k ≤ s₁.lines.length := hslot ▸ declarationSlot_le s₁
  have hread := hwritable.statement_render (isBlank_bodyIndent (some d) s₁)
  generalize htext : Participant.render (bodyIndent (some d) s₁) ⟨name, nonBlank? label, type⟩ = text
    at hread
  obtain ⟨s', hinsert⟩ : ∃ s', insertLines (declarationSlot (View.ofSource s₁)) [text] s₁ = .ok s' := by
    rw [hslot, insertLines, Source.insertLines, if_pos (show _ ≤ s₁.length from hle)]
    exact ⟨_, rfl⟩
  have hlines := congrArg Source.lines (insertLines_eq_ok hinsert).2
  have hdecl : s'.declarationOf? .sequence = s₁.declarationOf? .sequence := by
    obtain ⟨front, line, hdeclares⟩ := exists_declares_of_declarationOf? hground.declared
    rw [hdeclares.declarationOf?]
    exact (insertLines_declares hdeclares (lt_declarationSlot hdeclares) _ hinsert).declarationOf?
  rw [hslot] at hlines
  obtain ⟨hk, hview⟩ := View.ofSource_insert hdecl hle hlines hread (hground.names ▸ hnew)
  have hlt : ∀ i j, i < j →
      (moveDown (s₁.bodyIndex .sequence + k) 1 ∘ g) i < (moveDown (s₁.bodyIndex .sequence + k) 1 ∘ g) j :=
    fun i j hij => moveDown_lt_moveDown _ 1 (hground.lt i j hij)
  have hmoved : ∀ f : Nat → Nat, (View.ofSource s₁).moved f =
      ((View.ofSource s).moved (f ∘ g)).withDeclaration (f d) := fun f => by
    rw [hground.view, ← View.moved_moved]
    rfl
  rw [hmoved] at hview
  refine ⟨s₁, d, s', _, (readerAt s₁ k).declared (s₁.bodyIndex .sequence + k)
      ⟨name, (nonBlank? label).filter (· ≠ name), type⟩,
    moveDown (s₁.bodyIndex .sequence + k) 1 ∘ g, hensure, htext ▸ hinsert, ?_, rfl, rfl, ?_, hbox, hlt,
    ?_, congrArg View.participants hview, congrArg View.messages hview, congrArg View.notes hview,
    congrArg View.fragments hview, congrArg View.boxes hview⟩
  · -- The line neither opens nor closes a block.
    have hstay : blockStep blockRules text = .stay := by
      rw [← Statement.blockStep_ofLine, hread]
      rfl
    have hbalance₁ := hground.balance hbalance
    rw [checkBalance_eq_ok_iff] at hbalance₁ ⊢
    rw [hlines, depthAfter?_insert (depthAfter?_stay hstay · []), List.take_append_drop, hbalance₁]
  · rw [ParticipantRecord.display]
    dsimp only [Reader.declared]
    cases nonBlank? label with
    | none => rfl
    | some shown => by_cases heq : shown = name <;> simp [Option.filter, heq]
  · rw [hground.view] at hk
    exact hk.trans_eq (List.length_map _)

/-- A participant is added to a balanced source whose boxes are apart and whose numbering of messages
stands in none of them: it is in no box, it has the type and the label that it is to have, and everything
else is what it was. Its name is the one that is asked for, or else a free one with a number. -/
theorem applyOps_addParticipant {name : Option Text} (hbalance : s.checkBalance blockRules = .ok ())
    (hapart : (View.ofSource s).BoxesApart)
    (hauto : ∀ line ∈ (View.ofSource s).autonumberLine, ∀ b ∈ (View.ofSource s).boxes,
      b.span.contains line = false)
    (hquoted : ¬IsQuoted (trim label)) (hentity : ¬quoteEntity <:+: trim label)
    (hname : ∀ wanted ∈ name, Identifier.checkNode wanted = .ok () ∧ wanted ∉ (View.ofSource s).names)
    (hserial : name = none → (View.ofSource s).names.length + 1 < Fresh.lastSerial)
    (type : ParticipantType) (earlier : Option Handle) (ids : IdAllocator) : ∃ s' k p f,
      applyOps .sequence [.sequence (.addParticipant name label type)] ⟨s, earlier⟩ ids =
          (.ok ⟨s', some (.participant p.name)⟩, ids) ∧
        p.name = newName name (View.ofSource s) ∧
        p.name ∉ (View.ofSource s).names ∧ p.type = type ∧
        p.display = (nonBlank? label).getD p.name ∧ p.box = none ∧ (∀ i j, i < j → f i < f j) ∧
        AddsParticipant k p f (View.ofSource s) (View.ofSource s') := by
  have hlabel : ∀ text ∈ nonBlank? label, text ≠ [] ∧ IsTrimmed text ∧ unquote text = text := by
    intro text htext
    have hne := ne_nil_of_nonBlank? htext
    obtain rfl := nonBlank?_eq_some htext
    exact ⟨hne, isTrimmed_trim label, (unquote_eq_self_iff (isTrimmed_trim label) hentity).2 hquoted⟩
  have hnew := newName_notMem hname hserial
  obtain ⟨s₁, d, s', k, p, f, hensure, hinsert, hbalance', hpname, htype, hdisplay, hbox, hlt, hadds⟩ :=
    exists_addsParticipant type hbalance hapart hauto
      (Participant.isWritable_of_isIdent (isIdent_newName hname) hlabel) hnew
  have hop : applyOp .sequence (.sequence (.addParticipant name label type)) s ids =
      (.ok ⟨s', some (.participant p.name)⟩, ids) :=
    congrArg (·, ids) (hpname ▸ addParticipant_eq hname hensure hinsert)
  refine ⟨s', k, p, f, applyOps_singleton_of_isBalanced hop (fun _ => ?_) earlier, hpname, hpname ▸ hnew,
    htype, hpname ▸ hdisplay, hbox, hlt, hadds⟩
  rw [isBalanced, show Kind.sequence.blockRules = blockRules from rfl, hbalance']
  rfl

/-- The last declaration stands in a box with a fragment around it, and the first name is taken. -/
theorem applyOps_addParticipant_boxed :
    let s : Source := .ofText ("sequenceDiagram\nautonumber\nactor p1\nbox red\nopt x\n" ++
      "participant A as B\nend\nend\nA->>p1: hi\nbox\nend").toList
    let label : Text := " Bob ".toList
    s.checkBalance blockRules = .ok () ∧ (View.ofSource s).BoxesApart ∧
      (∀ line ∈ (View.ofSource s).autonumberLine, ∀ b ∈ (View.ofSource s).boxes,
        b.span.contains line = false) ∧
      ¬IsQuoted (trim label) ∧ ¬quoteEntity <:+: trim label ∧
      (View.ofSource s).names.length + 1 < Fresh.lastSerial ∧ ∃ s' k p f,
        applyOps .sequence [.sequence (.addParticipant none label .database)] ⟨s, none⟩ {} =
            (.ok ⟨s', some (.participant p.name)⟩, {}) ∧
          p.name = newName none (View.ofSource s) ∧
          p.name ∉ (View.ofSource s).names ∧ p.type = .database ∧
          p.display = (nonBlank? label).getD p.name ∧ p.box = none ∧ (∀ i j, i < j → f i < f j) ∧
          AddsParticipant k p f (View.ofSource s) (View.ofSource s') := by
  intro s label
  have hbalance : s.checkBalance blockRules = .ok () := by decide +kernel
  have hapart : (View.ofSource s).BoxesApart := by decide +kernel
  have hauto : ∀ line ∈ (View.ofSource s).autonumberLine, ∀ b ∈ (View.ofSource s).boxes,
      b.span.contains line = false := by decide +kernel
  have hquoted : ¬IsQuoted (trim label) := by decide +kernel
  have hentity : ¬quoteEntity <:+: trim label := by decide +kernel
  have hserial : (View.ofSource s).names.length + 1 < Fresh.lastSerial := by decide +kernel
  exact ⟨hbalance, hapart, hauto, hquoted, hentity, hserial,
    applyOps_addParticipant hbalance hapart hauto hquoted hentity (by rintro _ ⟨⟩) (fun _ => hserial)
      .database none {}⟩

end Edit.Sequence

end DiagramEditor
