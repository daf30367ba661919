import DiagramEditor.Proofs.Edit.Batch
import DiagramEditor.Proofs.Sequence.Line
import DiagramEditor.Proofs.Sequence.Participants
import DiagramEditor.Proofs.Source.Depth

/-!
# Participants are deleted with all that mentions them

A participant is mentioned by its declarations, by messages and by notes. The edit deletes the lines of
its first declaration, of its messages and of the notes that name nobody else (`goneLines`), and writes
the other notes anew without its name. What is left are the statements on the other lines, with the name
struck from them (`statementsAt_struckSource`).

So the participant is gone unless it is declared twice, which a source may well do: the second
declaration stays, and it is the first one then (`applyOps_deleteParticipant`).
-/

namespace DiagramEditor

open Source Text

namespace Sequence

/-- The note without this name. -/
def Note.without (name : Text) (n : Note) : Note :=
  { n with participants := n.participants.filter (· ≠ name) }

/-- The statement with the name struck from it, if it is a note. -/
def Statement.struck (name : Text) : Statement → Statement
  | note n => note (n.without name)
  | st => st

/-- All that the note names is this participant. -/
def Note.namesOnly (name : Text) (n : Note) : Bool :=
  n.participants.all (· = name)

/-- The lines that go with the participant: its declaration, its messages, and its notes. -/
def View.goneLines (name : Text) (v : View) : List Nat :=
  ((v.participant? name).bind (·.line)).toList ++
    (v.messages.filter (·.message.involves name)).map (·.line) ++
      ((v.notes.filter (·.note.participants.contains name)).filter (·.note.namesOnly name)).map (·.line)

/-- The line stays. -/
def View.keepsLine (name : Text) (v : View) (i : Nat) : Bool :=
  !(v.goneLines name).contains i

/-- Where a line goes when the others go. -/
def View.lineWithout (name : Text) (v : View) (i : Nat) : Nat :=
  rank (v.keepsLine name) i

end Sequence

namespace Edit.Sequence

open DiagramEditor.Sequence

variable {s s' s₁ : Source} {name : Text} {i : Nat}

/-! ## Lines that go -/

theorem note_of_mem_statements {n : Note} (h : (i, .note n) ∈ statements s) : n.IsWritable := by
  obtain ⟨-, text, -, hstatement⟩ := mem_statements_iff.1 h
  have hreads := Statement.readsFrom_ofLine text
  rw [hstatement] at hreads
  exact Note.isWritable_of_ofLine? hreads

theorem contains_of_namesOnly {n : Note} (hn : n.IsWritable) (h : n.namesOnly name = true) :
    n.participants.contains name = true := by
  obtain ⟨first, rest, heq⟩ := List.exists_cons_of_ne_nil hn.participants_ne_nil
  have hfirst := List.all_eq_true.1 h first (heq ▸ List.mem_cons_self)
  rw [heq, ← of_decide_eq_true hfirst]
  simp

theorem keepsLine_iff {v : View} : v.keepsLine name i = true ↔ i ∉ v.goneLines name := by
  simp [View.keepsLine]

/-- A line is deleted for what it says. -/
theorem mem_goneLines_iff : i ∈ (View.ofSource s).goneLines name ↔
    ((View.ofSource s).participant? name).bind (·.line) = some i ∨
      (∃ m, (i, .message m) ∈ statements s ∧ m.involves name = true) ∨
        ∃ n, (i, .note n) ∈ statements s ∧ n.namesOnly name = true := by
  simp only [View.goneLines, List.mem_append, Option.mem_toList, List.mem_map, List.mem_filter, or_assoc,
    ← View.exists_mem_messages_iff, ← View.exists_mem_notes_iff]
  refine or_congr_right (or_congr ?_ ?_)
  · constructor
    · rintro ⟨r, ⟨hr, hinvolves⟩, rfl⟩
      exact ⟨r.message, ⟨r, hr, rfl, rfl⟩, hinvolves⟩
    · rintro ⟨_, ⟨r, hr, rfl, rfl⟩, hinvolves⟩
      exact ⟨r, ⟨hr, hinvolves⟩, rfl⟩
  · constructor
    · rintro ⟨r, ⟨⟨hr, -⟩, honly⟩, rfl⟩
      exact ⟨r.note, ⟨r, hr, rfl, rfl⟩, honly⟩
    · rintro ⟨_, ⟨r, hr, rfl, rfl⟩, honly⟩
      have hwritable := note_of_mem_statements (View.exists_mem_notes_iff.1 ⟨r, hr, rfl, rfl⟩)
      exact ⟨r, ⟨⟨hr, contains_of_namesOnly hwritable honly⟩, honly⟩, rfl⟩

/-- The line of a participant is that of a declaration. -/
theorem exists_declaration_of_line
    (h : ((View.ofSource s).participant? name).bind (·.line) = some i) :
    ∃ q, (i, .participant q) ∈ statements s ∧ q.name = name := by
  obtain ⟨p, hp, hline⟩ := Option.bind_eq_some_iff.1 h
  exact ⟨_, View.declared_of_line hp hline, View.name_of_participant? hp⟩

theorem mem_goneLines_of_message {m : Message} (h : (i, .message m) ∈ statements s) :
    i ∈ (View.ofSource s).goneLines name ↔ m.involves name = true := by
  rw [mem_goneLines_iff]
  constructor
  · rintro (hline | ⟨m', hm', hinvolves⟩ | ⟨n, hn, -⟩)
    · obtain ⟨q, hq, -⟩ := exists_declaration_of_line hline
      cases statement_unique h hq
    · cases statement_unique h hm'
      exact hinvolves
    · cases statement_unique h hn
  · exact fun hinvolves => .inr (.inl ⟨m, h, hinvolves⟩)

theorem mem_goneLines_of_note {n : Note} (h : (i, .note n) ∈ statements s) :
    i ∈ (View.ofSource s).goneLines name ↔ n.namesOnly name = true := by
  rw [mem_goneLines_iff]
  constructor
  · rintro (hline | ⟨m, hm, -⟩ | ⟨n', hn', honly⟩)
    · obtain ⟨q, hq, -⟩ := exists_declaration_of_line hline
      cases statement_unique h hq
    · cases statement_unique h hm
    · cases statement_unique h hn'
      exact honly
  · exact fun honly => .inr (.inr ⟨n, h, honly⟩)

theorem mem_goneLines_of_participant {q : Participant} (h : (i, .participant q) ∈ statements s) :
    i ∈ (View.ofSource s).goneLines name ↔
      ((View.ofSource s).participant? name).bind (·.line) = some i := by
  rw [mem_goneLines_iff]
  refine or_iff_left ?_
  rintro (⟨m, hm, -⟩ | ⟨n, hn, -⟩)
  · cases statement_unique h hm
  · cases statement_unique h hn

/-- A deleted line says something, and is about no block. -/
theorem exists_statement_of_mem_goneLines (h : i ∈ (View.ofSource s).goneLines name) :
    ∃ st, (i, st) ∈ statements s ∧ st.isOnBlocks = false := by
  rcases mem_goneLines_iff.1 h with hline | ⟨m, hm, -⟩ | ⟨n, hn, -⟩
  · obtain ⟨q, hq, -⟩ := exists_declaration_of_line hline
    exact ⟨_, hq, rfl⟩
  · exact ⟨_, hm, rfl⟩
  · exact ⟨_, hn, rfl⟩

/-! ## The new source -/

/-- The line of the note, written without the name. -/
def struckLine (name : Text) (s : Source) (r : NoteRecord) : Text :=
  (r.note.without name).render (indent ((s.line? r.line).getD []))

/-- The notes that name the participant and others. -/
def struckNotes (name : Text) (v : View) : List NoteRecord :=
  (v.notes.filter (·.note.participants.contains name)).filter (!·.note.namesOnly name)

/-- The lines that are written anew, with their texts. -/
def struckLines (name : Text) (s : Source) : List (Nat × Text) :=
  (struckNotes name (View.ofSource s)).map fun r => (r.line, struckLine name s r)

/-- Notes on different lines are struck independently of each other. -/
theorem foldlM_strikeFromNote {rs : List NoteRecord} (hnodup : (rs.map (·.line)).Nodup)
    (hsame : ∀ r ∈ rs, s₁.lines[r.line]? = s.lines[r.line]?)
    (hlt : ∀ r ∈ rs, r.line < s₁.length) : ∃ s', rs.foldlM (strikeFromNote name) s₁ = .ok s' ∧
      (rs.map fun r => (r.line, struckLine name s r)).foldlM
        (fun s p => Edit.replaceLine p.1 p.2 s) s₁ = .ok s' := by
  induction rs generalizing s₁ with
  | nil => exact ⟨s₁, rfl, rfl⟩
  | cons r rs ih =>
    obtain ⟨hsame, hrest⟩ := List.forall_mem_cons.1 hsame
    obtain ⟨hlt, hlts⟩ := List.forall_mem_cons.1 hlt
    obtain ⟨hnot, hnodup⟩ := List.nodup_cons.1 (List.map_cons ▸ hnodup)
    have hstrike : strikeFromNote name s₁ r =
        Edit.replaceLine r.line (struckLine name s r) s₁ := by
      have hline : s₁.lines[r.line]? = some s₁.lines[r.line] := List.getElem?_eq_getElem hlt
      rw [strikeFromNote, lineAt, Source.line?, hline, struckLine, Source.line?, ← hsame, hline]
      rfl
    have hreplace : Edit.replaceLine r.line (struckLine name s r) s₁ =
        .ok { s₁ with lines := s₁.lines.set r.line (struckLine name s r) } := by
      rw [Edit.replaceLine, Source.replaceLine, if_pos hlt]
      rfl
    have hothers : ∀ q ∈ rs, (s₁.lines.set r.line (struckLine name s r))[q.line]? =
        s.lines[q.line]? := by
      intro q hq
      have hne : r.line ≠ q.line := fun heq => hnot (heq ▸ List.mem_map_of_mem hq)
      rw [List.getElem?_set_ne hne, hrest q hq]
    obtain ⟨s', hfold, hchanges⟩ := @ih
      { s₁ with lines := s₁.lines.set r.line (struckLine name s r) } hnodup hothers
      fun q hq => (hlts q hq).trans_eq List.length_set.symm
    refine ⟨s', ?_, ?_⟩
    · rw [List.foldlM_cons, hstrike, hreplace]
      exact hfold
    · rw [List.map_cons, List.foldlM_cons, hreplace]
      exact hchanges

theorem nodup_map_line_notes (s : Source) : ((View.ofSource s).notes.map (·.line)).Nodup := by
  have hnodup := (map_fst_said_sublist Statement.note? (statements s)).nodup
    (nodup_map_fst_statements s)
  rwa [← View.map_notes_ofSource, List.map_map] at hnodup

/-- The lines of what was there, with the name struck from some of them and some left out. -/
theorem deleteParticipant_eq (h : name ∈ (View.ofSource s).names) : ∃ s₁,
    (struckLines name s).foldlM (fun s p => Edit.replaceLine p.1 p.2 s) s = .ok s₁ ∧
      deleteParticipant name s =
        .ok { source := s₁.deleteLineSet ((View.ofSource s).goneLines name) } := by
  obtain ⟨p, hp⟩ := Option.isSome_iff_exists.1 (View.mem_names_iff_isSome.1 h)
  have hsublist : ((struckNotes name (View.ofSource s)).map (·.line)).Sublist
      ((View.ofSource s).notes.map (·.line)) :=
    (List.filter_sublist.trans List.filter_sublist).map _
  obtain ⟨s₁, hfold, hchanges⟩ : ∃ s₁,
      (struckNotes name (View.ofSource s)).foldlM (strikeFromNote name) s = .ok s₁ ∧
        (struckLines name s).foldlM (fun s p => Edit.replaceLine p.1 p.2 s) s = .ok s₁ :=
    foldlM_strikeFromNote (hsublist.nodup (nodup_map_line_notes s)) (fun _ _ => rfl)
      fun r hr => (isWithin_length s).notes r (List.mem_filter.1 (List.mem_filter.1 hr).1).1
  refine ⟨s₁, hchanges, ?_⟩
  rw [deleteParticipant, requireParticipant, hp]
  simp only [bind, Except.bind]
  rw [show ((View.ofSource s).notes.filter fun r => r.note.participants.contains name).filter
    (fun r => !r.note.participants.all (· = name)) = struckNotes name (View.ofSource s) from rfl, hfold,
    View.goneLines, hp]
  rfl

theorem isWritable_without {n : Note} (hn : n.IsWritable) (h : n.namesOnly name = false) :
    (n.without name).IsWritable where
  participants_ne_nil := by
    obtain ⟨other, hother, hne⟩ := List.all_eq_false.1 h
    exact List.ne_nil_of_mem (List.mem_filter.2 ⟨hother, by simpa using hne⟩)
  participants other hother := hn.participants other (List.mem_filter.1 hother).1
  text := hn.text

theorem without_eq_self {n : Note} (h : n.participants.contains name = false) :
    n.without name = n := by
  rw [Note.without, List.filter_eq_self.2]
  intro other hother
  rw [decide_eq_true_eq]
  rintro rfl
  simp [hother] at h

/-- A line that is kept says what it said, without the name. -/
theorem ofLine_changedLine {p : Nat × Text} (hp : p ∈ s.body .sequence)
    (hkeep : (View.ofSource s).keepsLine name p.1 = true) :
    Statement.ofLine (changedLine (struckLines name s) p.1 p.2) =
      (Statement.ofLine p.2).struck name := by
  have hst : (p.1, Statement.ofLine p.2) ∈ statements s := List.mem_map_of_mem hp
  rcases changedLine_cases (struckLines name s) p.1 p.2 with ⟨heq, hno⟩ | hmem
  · rw [heq]
    cases hnote : Statement.ofLine p.2 with
    | note n =>
      rw [hnote] at hst
      cases hin : n.participants.contains name with
      | false => rw [Statement.struck, without_eq_self hin]
      | true =>
        -- The note names others as well, or its line were deleted. So the line was written anew.
        have honly : n.namesOnly name = false := by
          rw [← Bool.not_eq_true, ← mem_goneLines_of_note hst]
          exact keepsLine_iff.1 hkeep
        obtain ⟨r, hr, hline, rfl⟩ := View.exists_mem_notes_iff.2 hst
        refine absurd hline (hno (r.line, struckLine name s r) (List.mem_map_of_mem ?_))
        exact List.mem_filter.2 ⟨List.mem_filter.2 ⟨hr, hin⟩, by simp [honly]⟩
    | _ => rfl
  · obtain ⟨r, hr, heq⟩ := List.mem_map.1 hmem
    obtain ⟨hline, htext⟩ := Prod.mk.inj heq
    obtain ⟨hr, honly⟩ := List.mem_filter.1 hr
    have hnote := View.exists_mem_notes_iff.1 ⟨r, (List.mem_filter.1 hr).1, hline, rfl⟩
    have hwritable := isWritable_without (note_of_mem_statements hnote) (by simpa using honly)
    rw [← htext, struckLine, hwritable.statement_render (isBlank_indent _),
      statement_unique hst hnote]
    rfl

section Struck

variable (hfold : (struckLines name s).foldlM (fun s p => Edit.replaceLine p.1 p.2 s) s = .ok s₁)

include hfold

theorem statementsAt_struckSource : statementsAt (s.bodyIndex .sequence)
    (s₁.deleteLineSet ((View.ofSource s).goneLines name)) =
      ((statements s).filter fun p => (View.ofSource s).keepsLine name p.1).map fun p =>
        ((View.ofSource s).lineWithout name p.1, p.2.struck name) := by
  refine statementsAt_map_filter ((View.ofSource s).keepsLine name) (Statement.struck name)
    (lines_replaceLines_deleteLineSet _ hfold) (fun i hi => ?_)
    fun p hp hkeep => ofLine_changedLine hp hkeep
  rw [keepsLine_iff]
  intro hgone
  obtain ⟨st, hst, -⟩ := exists_statement_of_mem_goneLines hgone
  exact absurd (mem_statements_iff.1 hst).1 (Nat.not_le.2 hi)

theorem isBalanced_struckSource (hbalance : isBalanced .sequence s = true) :
    isBalanced .sequence (s₁.deleteLineSet ((View.ofSource s).goneLines name)) = true := by
  rw [isBalanced_iff, Kind.blockRules, checkBalance_eq_ok_iff] at hbalance ⊢
  rw [lines_replaceLines_deleteLineSet _ hfold, depthAfter?_map_filter ?_ ?_, map_snd_numbered]
  · exact hbalance
  · intro p hp hkeep
    rcases changedLine_cases (struckLines name s) p.1 p.2 with ⟨heq, -⟩ | hmem
    · rw [heq]
    · obtain ⟨r, hr, heq⟩ := List.mem_map.1 hmem
      have hnote := View.exists_mem_notes_iff.1
        ⟨r, (List.mem_filter.1 (List.mem_filter.1 hr).1).1, (Prod.mk.inj heq).1, rfl⟩
      obtain ⟨hle, text, htext, hstatement⟩ := mem_statements_iff.1 hnote
      obtain rfl := Option.some.inj ((mem_numbered.1 hp).2.symm.trans htext)
      have hbody : p ∈ s.body .sequence := by
        rw [body_eq_numbered]
        refine mem_numbered.2 ⟨hle, ?_⟩
        rw [List.getElem?_drop, Nat.add_sub_cancel' hle, htext]
      rw [← Statement.blockStep_ofLine, ofLine_changedLine hbody hkeep, ← Statement.blockStep_ofLine,
        hstatement]
      rfl
  · intro p hp hgone
    obtain ⟨st, hst, hblocks⟩ := exists_statement_of_mem_goneLines (i := p.1) (by simpa using hgone)
    obtain ⟨-, text, htext, rfl⟩ := mem_statements_iff.1 hst
    obtain rfl := Option.some.inj ((mem_numbered.1 hp).2.symm.trans htext)
    rw [← Statement.blockStep_ofLine, Statement.blockStep_of_not_isOnBlocks hblocks]

/-- What is read of the new source was read on a line that is kept. -/
theorem exists_of_mem_struckSource {st : Statement}
    (h : (i, st) ∈ statements (s₁.deleteLineSet ((View.ofSource s).goneLines name)))
    (hle : s.bodyIndex .sequence ≤
      (s₁.deleteLineSet ((View.ofSource s).goneLines name)).bodyIndex .sequence) :
    ∃ j old, (j, old) ∈ statements s ∧ j ∉ (View.ofSource s).goneLines name ∧
      old.struck name = st := by
  have hmem := mem_statementsAt_of_mem_statements hle h
  rw [statementsAt_struckSource hfold] at hmem
  obtain ⟨⟨j, old⟩, hold, heq⟩ := List.mem_map.1 hmem
  obtain ⟨hold, hkeep⟩ := List.mem_filter.1 hold
  exact ⟨j, old, hold, keepsLine_iff.1 hkeep, (Prod.mk.inj heq).2⟩

end Struck

/-! ## What is left -/

/-- A participant with a declaration on another line than the view says is declared more than once. -/
theorem one_lt_declarations {q : Participant} (hq : (i, .participant q) ∈ statements s)
    (hline : ((View.ofSource s).participant? q.name).bind (·.line) ≠ some i) :
    1 < (declarations s).countP (·.name = q.name) := by
  obtain ⟨e, he, heline, hename⟩ := Reader.exists_mem_declarations hq (Reader.start s)
  have he : e ∈ (declarations s).filter (·.name = q.name) :=
    List.mem_filter.2 ⟨he, by simp [hename]⟩
  rw [List.countP_eq_length_filter]
  cases h : (declarations s).filter (·.name = q.name) with
  | nil =>
    rw [h] at he
    cases he
  | cons d rest =>
    -- The first declaration is that of the view.
    have hd : (View.ofSource s).participant? q.name = some d := by
      rw [View.participant?_ofSource, ← List.head?_filter, h]
      rfl
    rw [hd] at hline
    rw [h] at he
    rcases List.mem_cons.1 he with rfl | he
    · exact absurd heline hline
    · exact Nat.succ_lt_succ (List.length_pos_of_mem he)

/-- The messages of the participant are gone and its name is struck from the notes, and nothing else is
another but for the lines. -/
structure RemovesParticipant (name : Text) (f : Nat → Nat) (v v' : View) : Prop where
  messages : (v'.messages.map fun r => (r.line, r.message)) =
    (v.messages.filter (!·.message.involves name)).map fun r => (f r.line, r.message)
  notes : (v'.notes.map fun r => (r.line, r.note)) =
    (v.notes.filter (!·.note.namesOnly name)).map fun r => (f r.line, r.note.without name)
  fragments : v'.fragments = v.fragments.map (·.moved f)
  boxes : v'.boxes = v.boxes.map (·.moved f)

section Struck

variable (hfold : (struckLines name s).foldlM (fun s p => Edit.replaceLine p.1 p.2 s) s = .ok s₁)

include hfold

theorem said_message_struckSource :
    said Statement.message? (statementsAt (s.bodyIndex .sequence)
      (s₁.deleteLineSet ((View.ofSource s).goneLines name))) =
        ((said Statement.message? (statements s)).filter (!·.2.involves name)).map fun p =>
          ((View.ofSource s).lineWithout name p.1, p.2) := by
  rw [statementsAt_struckSource hfold, said_map_filter _ _ id fun p _ _ => ?_]
  · congr 1
    refine List.filter_congr fun p hp => ?_
    obtain ⟨st, hst, hmessage⟩ := mem_said.1 hp
    rw [Statement.message?_eq_some.1 hmessage] at hst
    rw [Bool.eq_iff_iff, keepsLine_iff, mem_goneLines_of_message hst, Bool.not_eq_true,
      Bool.not_eq_true']
  · cases p.2 <;> rfl

theorem said_note_struckSource :
    said Statement.note? (statementsAt (s.bodyIndex .sequence)
      (s₁.deleteLineSet ((View.ofSource s).goneLines name))) =
        ((said Statement.note? (statements s)).filter (!·.2.namesOnly name)).map fun p =>
          ((View.ofSource s).lineWithout name p.1, p.2.without name) := by
  rw [statementsAt_struckSource hfold, said_map_filter _ _ (Note.without name) fun p _ _ => ?_]
  · congr 1
    refine List.filter_congr fun p hp => ?_
    obtain ⟨st, hst, hnote⟩ := mem_said.1 hp
    rw [Statement.note?_eq_some.1 hnote] at hst
    rw [Bool.eq_iff_iff, keepsLine_iff, mem_goneLines_of_note hst, Bool.not_eq_true,
      Bool.not_eq_true']
  · cases p.2 <;> rfl

/-- What opens a block stays. -/
theorem length_said_struckSource {α : Type} {part : Statement → Option α}
    (hstruck : ∀ st, part (Statement.struck name st) = part st)
    (hblocks : ∀ st, st.isOnBlocks = false → part st = none) :
    (said part (statementsAt (s.bodyIndex .sequence)
      (s₁.deleteLineSet ((View.ofSource s).goneLines name)))).length =
        (said part (statements s)).length := by
  rw [statementsAt_struckSource hfold,
    said_map_filter _ _ id fun p _ _ => by rw [hstruck, Option.map_id_apply],
    List.length_map, List.filter_eq_self.2]
  rintro ⟨i, a⟩ hp
  obtain ⟨st, hst, hpart⟩ := mem_said.1 hp
  rw [keepsLine_iff]
  intro hgone
  obtain ⟨st', hst', hnot⟩ := exists_statement_of_mem_goneLines hgone
  rw [statement_unique hst hst', hblocks st' hnot] at hpart
  cases hpart

variable (hle : s.bodyIndex .sequence ≤
  (s₁.deleteLineSet ((View.ofSource s).goneLines name)).bodyIndex .sequence)

include hle

/-- Everything else is there if and only if no entry stands on a line that is read no longer. -/
theorem removesParticipant_iff :
    RemovesParticipant name ((View.ofSource s).lineWithout name) (View.ofSource s)
      (View.ofSource (s₁.deleteLineSet ((View.ofSource s).goneLines name))) ↔
        ∀ text ∈ unreadLines .sequence s (s₁.deleteLineSet ((View.ofSource s).goneLines name)),
          (Statement.ofLine text).isEntry = false := by
  refine ⟨fun h => (forall_isEntry_iff hle).2 ⟨?_, ?_, ?_, ?_⟩, fun h => ?_⟩
  · rw [said_message_struckSource hfold, ← View.map_messages_ofSource, h.messages,
      ← View.map_messages_ofSource, List.filter_map, List.length_map, List.length_map,
      List.length_map]
    rfl
  · rw [said_note_struckSource hfold, ← View.map_notes_ofSource, h.notes, ← View.map_notes_ofSource,
      List.filter_map, List.length_map, List.length_map, List.length_map]
    rfl
  · rw [length_said_struckSource hfold (fun st => by cases st <;> rfl)
      (fun st h => by cases st <;> first | rfl | cases h), ← View.length_boxes_ofSource, h.boxes,
      List.length_map, View.length_boxes_ofSource]
  · rw [length_said_struckSource hfold (fun st => by cases st <;> rfl)
      (fun st h => by cases st <;> first | rfl | cases h), ← View.length_fragments_ofSource,
      h.fragments, List.length_map, View.length_fragments_ofSource]
  · have hentry := fun text htext => Statement.isEntry_eq_false_iff.1 (h text htext)
    have hgone : ∀ p ∈ statements s, (View.ofSource s).keepsLine name p.1 = false →
        p.2.isOnBlocks = false := by
      rintro ⟨i, st⟩ hp hgone
      rw [← Bool.not_eq_true, keepsLine_iff, not_not] at hgone
      obtain ⟨st', hst', hblocks⟩ := exists_statement_of_mem_goneLines hgone
      rw [statement_unique hp hst']
      exact hblocks
    obtain ⟨hfragments, hboxes⟩ := View.blocks_of_statementsAt _ (Statement.struck name) hle h
      (statementsAt_struckSource hfold) hgone
      (fun st hst => by cases st <;> first | rfl | cases hst)
      fun st hst => by cases st <;> exact hst
    refine ⟨?_, ?_, hfragments, hboxes⟩
    · rw [View.map_messages_ofSource, said_statements hle fun text htext => (hentry text htext).1,
        said_message_struckSource hfold, ← View.map_messages_ofSource, List.filter_map, List.map_map]
      rfl
    · rw [View.map_notes_ofSource, said_statements hle fun text htext => (hentry text htext).2.1,
        said_note_struckSource hfold, ← View.map_notes_ofSource, List.filter_map, List.map_map]
      rfl

omit hle in
theorem declarationOf?_struckSource (h : name ∈ (View.ofSource s).names) {d : Nat}
    (hd : s.declarationOf? .sequence = some d) :
    (s₁.deleteLineSet ((View.ofSource s).goneLines name)).declarationOf? .sequence = some d := by
  obtain ⟨s₂, hfold', hdelete⟩ := deleteParticipant_eq h
  cases hfold'.symm.trans hfold
  obtain ⟨front, line, hdeclares⟩ := exists_declares_of_declarationOf? hd
  obtain rfl := Option.some.inj (hdeclares.declarationOf?.symm.trans hd)
  exact (deleteParticipant_declares hdeclares _ hdelete).declarationOf?

/-- A participant that is still there is declared again. -/
theorem one_lt_of_mem_struckSource
    (h : name ∈ (View.ofSource (s₁.deleteLineSet ((View.ofSource s).goneLines name))).names) :
    1 < (declarations s).countP (·.name = name) := by
  obtain ⟨⟨i, st⟩, hst, hname⟩ := List.mem_flatMap.1 (View.mem_names_iff.1 h)
  obtain ⟨j, old, hold, hkept, rfl⟩ := exists_of_mem_struckSource hfold hst hle
  cases old with
  | participant q =>
    obtain rfl := List.mem_singleton.1 hname
    exact one_lt_declarations hold fun hline => hkept ((mem_goneLines_of_participant hold).2 hline)
  | message m =>
    refine absurd ((mem_goneLines_of_message hold).2 ?_) hkept
    rcases List.mem_pair.1 hname with rfl | rfl <;> simp [Message.involves]
  | _ => cases hname

end Struck

end Edit.Sequence

end DiagramEditor
