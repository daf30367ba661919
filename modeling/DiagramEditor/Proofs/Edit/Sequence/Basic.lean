import DiagramEditor.Edit.Sequence
import DiagramEditor.Proofs.Edit.Basic
import DiagramEditor.Proofs.Edit.Declared
import DiagramEditor.Proofs.Edit.Range
import DiagramEditor.Proofs.Sequence.View

/-!
# What edits of sequence diagrams do

What an edit asks for is in the diagram when the edit succeeds. An update of a participant has then
written its declaration anew, or a new one.

Every line that an edit goes by is one that the view remembers. So it stands behind the declaration,
which stays (`apply_declares`), and it is there when the edit gets to it (`apply_inRange`). New
declarations of participants go right behind such a line (`lt_declarationSlot`,
`declarationSlot_le`). A box goes where the first of the declarations was that move into it, and
they leave the lines in front of that place alone (`addBox_inRange`).
-/

namespace DiagramEditor.Edit.Sequence

open DiagramEditor.Sequence Text Source

variable {s : Source} {v : View} {front : List Text} {line name : Text} {index : Nat}
  {p : ParticipantRecord}

/-! ## What is required -/

theorem isIdent_of_checkNode (h : Identifier.checkNode name = .ok ()) :
    Identifier.isIdent name = true := by
  rw [Identifier.isIdent, Bool.and_eq_true]
  exact ⟨by simpa using ne_nil_of_check h, all_of_check h⟩

theorem requireParticipant_eq_ok (h : requireParticipant v name = .ok p) :
    v.participant? name = some p := by
  rw [requireParticipant] at h
  split at h
  · next hp => rw [hp, Except.ok.inj h]
  · cases h

theorem requireUnboxed_eq_ok (h : requireUnboxed v name = .ok p) : v.participant? name = some p := by
  obtain ⟨q, hq, h⟩ := bind_eq_ok.1 h
  split at h
  · obtain ⟨_, h, -⟩ := bind_eq_ok.1 h
    cases h
  · cases h
    exact requireParticipant_eq_ok hq

theorem requireMessage_eq_ok {m : MessageRecord} (h : requireMessage v index = .ok m) :
    v.message? index = some m := by
  rw [requireMessage] at h
  split at h
  · next hm => rw [hm, Except.ok.inj h]
  · cases h

theorem updateParticipant_eq_ok {label : Option Text} {type : Option ParticipantType}
    {edited : Edited} (h : updateParticipant name label type s = .ok edited) :
    ∃ p, (View.ofSource s).participant? name = some p ∧
      let render := fun indent =>
        Participant.render indent ⟨name, label.elim p.label nonBlank?, type.getD p.type⟩
      (∃ line text, p.line = some line ∧ lineAt line s = .ok text ∧
        replaceLine line (render (indent text)) s = .ok edited.source) ∨
      insertLines (declarationSlot (View.ofSource s))
        [render (bodyIndent (View.ofSource s).declarationLine s)] s = .ok edited.source := by
  obtain ⟨p, hp, h⟩ := bind_eq_ok.1 h
  refine ⟨p, requireParticipant_eq_ok hp, ?_⟩
  cases hline : p.line with
  | some line =>
    rw [hline] at h
    obtain ⟨text, htext, h⟩ := bind_eq_ok.1 h
    obtain ⟨s', hs', h⟩ := bind_eq_ok.1 h
    cases h
    refine .inl ⟨line, text, rfl, htext, ?_⟩
    cases label <;> exact hs'
  | none =>
    rw [hline] at h
    obtain ⟨s', hs', h⟩ := bind_eq_ok.1 h
    cases h
    refine .inr ?_
    cases label <;> exact hs'

/-! ## The declaration stays -/

/-! ### Lines of the view -/

/-- The lines that the view remembers stand behind the declaration. -/
theorem isWithin_of_declares (h : Declares .sequence front line s) :
    (View.ofSource s).IsWithin (front.length < ·) :=
  (View.isWithin_ofSource s).mono fun _ ⟨_, hmem⟩ => h.lt_of_mem_body hmem

theorem lt_lineBehind? {v : View} {P : Nat → Prop} (h : v.IsWithin P) {p : ParticipantRecord}
    (hp : p ∈ v.participants) {i : Nat} (hi : lineBehind? v p = some i) : ∃ j, P j ∧ i = j + 1 := by
  obtain ⟨own, hown, rfl⟩ := Option.map_eq_some_iff.1 hi
  refine ⟨_, ?_, rfl⟩
  cases hbox : p.box.bind (v.boxes[·]?) with
  | none => exact h.participants p hp own hown
  | some b =>
    obtain ⟨k, -, hk⟩ := Option.bind_eq_some_iff.1 hbox
    exact h.boxes b (List.mem_of_getElem? hk)

/-- New declarations go behind the declaration of the diagram. -/
theorem lt_declarationSlot (h : Declares .sequence front line s) :
    front.length < declarationSlot (View.ofSource s) := by
  have hv := isWithin_of_declares h
  rw [declarationSlot]
  split
  · next slot hslot =>
    obtain ⟨p, hp, hi⟩ := List.mem_filterMap.1 (List.max?_mem hslot)
    obtain ⟨j, hj, rfl⟩ := lt_lineBehind? hv hp hi
    exact Nat.lt_succ_of_lt hj
  · rw [View.declarationLine_ofSource, h.declarationOf?]
    cases hauto : (View.ofSource s).autonumberLine with
    | none => exact Nat.lt_succ_self _
    | some i => exact Nat.lt_succ_of_lt (hv.autonumber i hauto)

/-! ### Participants -/

theorem addParticipant_declares {label : Text} {type : ParticipantType}
    (h : Declares .sequence front line s) (name : Option Text) :
    LeavesDeclared .sequence front line (addParticipant name label type s) := by
  have hensure := ensureDeclaration_of_declares h
  rw [← View.declarationLine_ofSource] at hensure
  have hwrite : ∀ {text : Text} {handle : Option Handle}, LeavesDeclared .sequence front line (do
      return ⟨← insertLines (declarationSlot (View.ofSource s)) [text] s, handle⟩) :=
    (insertLines_declares h (lt_declarationSlot h)).bind fun _ hs => .ok hs
  cases name <;> refine .after fun _ _ => .after fun p hp => ?_ <;> cases hensure.symm.trans hp <;>
    exact hwrite

theorem updateParticipant_declares {label : Option Text} {type : Option ParticipantType}
    (h : Declares .sequence front line s) :
    LeavesDeclared .sequence front line (updateParticipant name label type s) := by
  intro edited hok
  obtain ⟨p, hp, hok⟩ := updateParticipant_eq_ok hok
  rcases hok with ⟨i, text, hi, -, hok⟩ | hok
  · have hlt := (isWithin_of_declares h).participants p (List.mem_of_find?_eq_some hp) i hi
    exact replaceLine_declares h hlt _ hok
  · exact insertLines_declares h (lt_declarationSlot h) _ hok

theorem deleteParticipant_declares (h : Declares .sequence front line s) :
    LeavesDeclared .sequence front line (deleteParticipant name s) := by
  have hv := isWithin_of_declares h
  refine .after fun p hp => ?_
  have hp := List.mem_of_find?_eq_some (requireParticipant_eq_ok hp)
  refine .bind (Ensures.foldlM h fun r hr s hs => ?_) fun s hs => ?_
  · have hlt := hv.notes r (List.mem_filter.1 (List.mem_filter.1 hr).1).1
    exact .after fun _ _ => replaceLine_declares hs hlt
  · refine .ok (deleteLineSet_declares hs fun i hi => ?_)
    rcases List.mem_append.1 hi with hi | hi
    · rcases List.mem_append.1 hi with hi | hi
      · exact hv.participants p hp i (Option.mem_toList.1 hi)
      · obtain ⟨m, hm, rfl⟩ := List.mem_map.1 hi
        exact hv.messages m (List.mem_filter.1 hm).1
    · obtain ⟨n, hn, rfl⟩ := List.mem_map.1 hi
      exact hv.notes n (List.mem_filter.1 (List.mem_filter.1 hn).1).1

theorem addBox_declares {label : Text} {color : Option Text} (h : Declares .sequence front line s)
    (names : List Text) : LeavesDeclared .sequence front line (addBox label color names s) := by
  have hv := isWithin_of_declares h
  have hmembers : Ensures (names.mapM (requireUnboxed (View.ofSource s))) fun members =>
      ∀ p ∈ members, ∀ i ∈ p.line, front.length < i :=
    Ensures.mapM fun name _ p hp =>
      hv.participants p (List.mem_of_find?_eq_some (requireUnboxed_eq_ok hp))
  refine hmembers.bind fun members hmembers => .after fun _ _ => ?_
  have hmoved : ∀ i ∈ members.filterMap (·.line), front.length < i := by
    intro i hi
    obtain ⟨p, hp, hi⟩ := List.mem_filterMap.1 hi
    exact hmembers p hp i hi
  have hslot : front.length <
      (members.filterMap (·.line)).min?.getD (declarationSlot (View.ofSource s)) := by
    cases hmin : (members.filterMap (·.line)).min? with
    | none => exact lt_declarationSlot h
    | some i => exact hmoved i (List.min?_mem hmin)
  exact (insertLines_declares (deleteLineSet_declares h hmoved) hslot).bind fun _ hs => .ok hs

/-! ### Messages, notes and fragments -/

theorem addMessage_declares {sender receiver text : Text} {arrow : MessageArrow}
    (h : Declares .sequence front line s) :
    LeavesDeclared .sequence front line (addMessage sender receiver arrow text s) :=
  .after fun _ _ => .after fun _ _ => .ok (pushLine_declares h _)

theorem updateMessage_declares {p : MessagePatch} (h : Declares .sequence front line s) :
    LeavesDeclared .sequence front line (updateMessage index p s) := by
  refine .after fun r hr => .after fun _ _ => .after fun _ _ => .after fun _ _ => ?_
  have hmem := List.mem_of_getElem? (requireMessage_eq_ok hr)
  exact (replaceLine_declares h ((isWithin_of_declares h).messages r hmem)).bind fun _ hs => .ok hs

theorem deleteMessage_declares (h : Declares .sequence front line s) :
    LeavesDeclared .sequence front line (deleteMessage index s) := by
  refine .after fun r hr => ?_
  have hmem := List.mem_of_getElem? (requireMessage_eq_ok hr)
  exact (deleteLines_declares h ((isWithin_of_declares h).messages r hmem)).bind fun _ hs => .ok hs

theorem addNote_declares {placement : NotePlacement} {participants : List Text} {text : Text}
    (h : Declares .sequence front line s) :
    LeavesDeclared .sequence front line (addNote placement participants text s) := by
  rw [addNote]
  split
  · exact .after fun _ h => nomatch h
  · exact .after fun _ _ => .ok (pushLine_declares h _)

theorem addFragment_declares {kind : FragmentKind} {label : Text}
    (h : Declares .sequence front line s) :
    LeavesDeclared .sequence front line (addFragment kind label s) :=
  .ok (pushLines_declares h _)

theorem toggleAutonumber_declares (h : Declares .sequence front line s) :
    LeavesDeclared .sequence front line (toggleAutonumber s) := by
  rw [toggleAutonumber]
  split
  · next i hi =>
    have hlt := (isWithin_of_declares h).autonumber i hi
    exact (deleteLines_declares h hlt).bind fun _ hs => .ok hs
  · rw [View.declarationLine_ofSource, ensureDeclaration_of_declares h]
    exact (insertLines_declares h (Nat.lt_succ_self _)).bind fun _ hs => .ok hs

/-! ### All edits -/

/-- Every edit of a sequence diagram leaves the declaration where it is. -/
theorem apply_declares (h : Declares .sequence front line s) (op : SequenceOp) :
    LeavesDeclared .sequence front line (apply op s) := by
  cases op with
  | addParticipant name => exact addParticipant_declares h name
  | updateParticipant => exact updateParticipant_declares h
  | deleteParticipant => exact deleteParticipant_declares h
  | addMessage => exact addMessage_declares h
  | updateMessage => exact updateMessage_declares h
  | deleteMessage => exact deleteMessage_declares h
  | addNote => exact addNote_declares h
  | addFragment => exact addFragment_declares h
  | addBox _ _ participants => exact addBox_declares h participants
  | toggleAutonumber => exact toggleAutonumber_declares h

/-! ## Lines that are there -/

/-! ### What edits ask for -/

theorem requireParticipant_inRange : InRange (requireParticipant v name) := by
  rw [requireParticipant]
  split
  exacts [.ok _, .error rfl]

theorem requireNewName_inRange : InRange (requireNewName v name) := by
  refine .bind requireIdentifier_inRange fun _ _ => ?_
  split
  exacts [.error rfl, .ok _]

theorem requireUnboxed_inRange : InRange (requireUnboxed v name) := by
  refine .bind requireParticipant_inRange fun _ _ => ?_
  split
  exacts [.error rfl, .ok _]

theorem requireMessage_inRange : InRange (requireMessage v index) := by
  rw [requireMessage]
  split
  exacts [.ok _, .error rfl]

/-- The names that a patch gives are asked for one by one. -/
theorem forM_requireParticipant_inRange (name : Option Text) :
    InRange (name.forM fun name => discard (requireParticipant v name)) := by
  cases name with
  | none => exact .ok _
  | some name => exact .map requireParticipant_inRange

/-- The lines that the view remembers are there. -/
theorem isWithin_length (s : Source) : (View.ofSource s).IsWithin (· < s.length) :=
  (View.isWithin_ofSource s).mono fun _ h => (exists_mem_body_iff.1 h).2

/-- New declarations go behind a line that is there, or to the top. -/
theorem declarationSlot_le (s : Source) : declarationSlot (View.ofSource s) ≤ s.length := by
  rw [declarationSlot]
  split
  · next slot hslot =>
    obtain ⟨p, hp, hi⟩ := List.mem_filterMap.1 (List.max?_mem hslot)
    obtain ⟨j, hj, rfl⟩ := lt_lineBehind? (isWithin_length s) hp hi
    exact Nat.succ_le_of_lt hj
  · cases hauto : (View.ofSource s).autonumberLine with
    | none =>
      rw [View.declarationLine_ofSource]
      exact bodyIndex_le .sequence s
    | some i => exact Nat.succ_le_of_lt ((isWithin_length s).autonumber i hauto)

/-! ### Participants -/

theorem addParticipant_inRange {label : Text} {type : ParticipantType} (name : Option Text) :
    InRange (addParticipant name label type s) := by
  have hwrite : ∀ name : Text, InRange
      (ensureDeclaration .sequence (View.ofSource s).declarationLine s >>= fun p =>
        insertLines (declarationSlot (View.ofSource p.1))
          [Participant.render (bodyIndent (some p.2) p.1) ⟨name, nonBlank? label, type⟩] p.1 >>=
            fun s => pure (⟨s, some (.participant name)⟩ : Edited)) := fun name =>
    .bind ensureDeclaration_inRange fun p _ =>
      .bind (insertLines_inRange (declarationSlot_le p.1)) fun _ _ => .ok _
  cases name with
  | some name => exact .bind (.map requireNewName_inRange) fun name _ => hwrite name
  | none => exact .bind (.ok _) fun name _ => hwrite name

theorem updateParticipant_inRange {label : Option Text} {type : Option ParticipantType} :
    InRange (updateParticipant name label type s) := by
  refine .bind requireParticipant_inRange fun p hp => ?_
  have hp := List.mem_of_find?_eq_some (requireParticipant_eq_ok hp)
  dsimp only
  cases hline : p.line with
  | some i =>
    have hlt := (isWithin_length s).participants p hp i hline
    exact .bind (lineAt_inRange hlt) fun _ _ => .bind (replaceLine_inRange hlt) fun _ _ => .ok _
  | none => exact .bind (insertLines_inRange (declarationSlot_le s)) fun _ _ => .ok _

theorem strikeFromNote_inRange {r : NoteRecord} (h : r.line < s.length) :
    InRange (strikeFromNote name s r) :=
  .bind (lineAt_inRange h) fun _ _ => replaceLine_inRange h

theorem length_strikeFromNote {r : NoteRecord} :
    Ensures (strikeFromNote name s r) fun s' => s'.length = s.length :=
  .after fun _ _ _ hs' => length_replaceLine hs'

theorem deleteParticipant_inRange : InRange (deleteParticipant name s) := by
  refine .bind requireParticipant_inRange fun _ _ => .bind ?_ fun _ _ => .ok _
  refine .foldlM (P := fun s' => s'.length = s.length) rfl fun r hr s' hs' => ?_
  have hlt := (isWithin_length s).notes r (List.mem_filter.1 (List.mem_filter.1 hr).1).1
  exact ⟨strikeFromNote_inRange (hs' ▸ hlt), length_strikeFromNote.mono fun _ h => h.trans hs'⟩

theorem declarationText_inRange {p : ParticipantRecord} (h : ∀ i ∈ p.line, i < s.length) :
    InRange (declarationText s p) := by
  rw [declarationText]
  split
  · next i hi => exact .map (lineAt_inRange (h i hi))
  · exact .ok _

theorem addBox_inRange {label : Text} {color : Option Text} (names : List Text) :
    InRange (addBox label color names s) := by
  refine .bind (.mapM fun _ _ => requireUnboxed_inRange) fun members hmembers => ?_
  have hlines : ∀ p ∈ members, ∀ i ∈ p.line, i < s.length :=
    Ensures.mapM (R := fun p => ∀ i ∈ p.line, i < s.length) (fun name _ p hp =>
      (isWithin_length s).participants p (List.mem_of_find?_eq_some (requireUnboxed_eq_ok hp)))
      members hmembers
  refine .bind (.mapM fun p hp => declarationText_inRange (hlines p hp)) fun _ _ => ?_
  refine .bind (insertLines_inRange ?_) fun _ _ => .ok _
  cases hmin : (members.filterMap (·.line)).min? with
  | none =>
    rw [List.min?_eq_none_iff.1 hmin, deleteLineSet_nil]
    exact declarationSlot_le s
  | some i =>
    obtain ⟨hi, hleast⟩ := List.min?_eq_some_iff.1 hmin
    obtain ⟨p, hp, hline⟩ := List.mem_filterMap.1 hi
    exact le_length_deleteLineSet (Nat.le_of_lt (hlines p hp i hline)) hleast

/-! ### Messages, notes and fragments -/

theorem addMessage_inRange {sender receiver text : Text} {arrow : MessageArrow} :
    InRange (addMessage sender receiver arrow text s) :=
  .bind requireParticipant_inRange fun _ _ => .bind requireParticipant_inRange fun _ _ => .ok _

/-- The line of a message that was asked for. -/
theorem lt_of_requireMessage {r : MessageRecord}
    (hr : requireMessage (View.ofSource s) index = .ok r) : r.line < s.length :=
  (isWithin_length s).messages r (List.mem_of_getElem? (requireMessage_eq_ok hr))

theorem updateMessage_inRange {p : MessagePatch} : InRange (updateMessage index p s) := by
  refine .bind requireMessage_inRange fun r hr => ?_
  refine .bind (forM_requireParticipant_inRange _) fun _ _ => ?_
  refine .bind (forM_requireParticipant_inRange _) fun _ _ => ?_
  have hlt := lt_of_requireMessage hr
  exact .bind (lineAt_inRange hlt) fun _ _ => .bind (replaceLine_inRange hlt) fun _ _ => .ok _

theorem deleteMessage_inRange : InRange (deleteMessage index s) := by
  refine .bind requireMessage_inRange fun r hr => ?_
  exact .bind (deleteLines_inRange (Nat.succ_le_of_lt (lt_of_requireMessage hr))) fun _ _ => .ok _

theorem addNote_inRange {placement : NotePlacement} {participants : List Text} {text : Text} :
    InRange (addNote placement participants text s) := by
  rw [addNote]
  split
  · exact .error rfl
  · exact .bind (.forM fun _ _ => .map requireParticipant_inRange) fun _ _ => .ok _

theorem addFragment_inRange {kind : FragmentKind} {label : Text} :
    InRange (addFragment kind label s) :=
  .ok _

/-- A declaration that is there or was made on top is a line of the source. -/
theorem lt_of_ensureDeclaration :
    Ensures (ensureDeclaration .sequence (View.ofSource s).declarationLine s) fun p =>
      p.2 < p.1.length := by
  have hle := bodyIndex_le .sequence s
  rw [bodyIndex] at hle
  rw [View.declarationLine_ofSource]
  cases hd : s.declarationOf? .sequence with
  | some d =>
    rw [hd] at hle
    exact .ok hle
  | none =>
    rw [ensureDeclaration]
    refine Ensures.map (fun s' hs' => length_insertLines hs') fun s' hs' => ?_
    exact hs' ▸ Nat.succ_pos _

theorem toggleAutonumber_inRange : InRange (toggleAutonumber s) := by
  rw [toggleAutonumber]
  split
  · next i hi =>
    have hlt := (isWithin_length s).autonumber i hi
    exact .bind (deleteLines_inRange (Nat.succ_le_of_lt hlt)) fun _ _ => .ok _
  · refine .bind ensureDeclaration_inRange fun p hp => ?_
    have hlt := lt_of_ensureDeclaration p hp
    exact .bind (insertLines_inRange (Nat.succ_le_of_lt hlt)) fun _ _ => .ok _

/-! ### All edits -/

/-- No edit of a sequence diagram asks for a line that is not there. -/
theorem apply_inRange (op : SequenceOp) (s : Source) : InRange (apply op s) := by
  cases op with
  | addParticipant name => exact addParticipant_inRange name
  | updateParticipant => exact updateParticipant_inRange
  | deleteParticipant => exact deleteParticipant_inRange
  | addMessage => exact addMessage_inRange
  | updateMessage => exact updateMessage_inRange
  | deleteMessage => exact deleteMessage_inRange
  | addNote => exact addNote_inRange
  | addFragment => exact addFragment_inRange
  | addBox _ _ participants => exact addBox_inRange participants
  | toggleAutonumber => exact toggleAutonumber_inRange

end DiagramEditor.Edit.Sequence
