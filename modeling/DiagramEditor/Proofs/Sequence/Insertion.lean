import DiagramEditor.Proofs.Sequence.Participants
import DiagramEditor.Proofs.Sequence.Place
import DiagramEditor.Proofs.Source.Depth

/-!
# Lines put into a sequence diagram

Where new lines are put between two others, the reader comes to them with what it has read in front of
them (`readerAt`), and what is behind them it reads on lines further down (`moveDown`).

A declaration of a new participant is one participant more, at the position that it comes to be at
(`Reader.run_withParticipant`), and everything else is what it was (`View.ofSource_insert`). It is in no
box if no box is open in front of it. A box that is open somewhere in a balanced source goes around that
place (`exists_box_of_open`), so none is open behind the last line of a box or behind a line outside of
all boxes, as long as boxes do not overlap (`box?_readerAt_declarationSlot`).
-/

namespace DiagramEditor.Sequence

open Text Source

variable {r : Reader} {line i k n : Nat} {st : Statement} {sts : List (Nat × Statement)}
  {name : Text} {p : ParticipantRecord} {s s' : Source}

/-! ## Lines in front and behind -/

/-- The statements in front of a line of the body. -/
def statementsBefore (s : Source) (k : Nat) : List (Nat × Statement) :=
  statementsFrom (s.bodyIndex .sequence) ((s.lines.drop (s.bodyIndex .sequence)).take k)

theorem lt_of_mem_statementsBefore (h : (line, st) ∈ statementsBefore s k) :
    line < s.bodyIndex .sequence + k := by
  obtain ⟨q, hq, heq⟩ := List.mem_map.1 h
  obtain ⟨rfl, -⟩ := Prod.mk.inj heq
  obtain ⟨-, htext⟩ := mem_numbered.1 hq
  have hlt := (List.getElem?_eq_some_iff.1 htext).1
  have hlength := List.length_take_le k (s.lines.drop (s.bodyIndex .sequence))
  omega

theorem readerAt_eq_run (s : Source) (k : Nat) :
    readerAt s k = (Reader.start s).run (statementsBefore s k) := by
  rw [readerAt, Reader.readAll, Reader.run, statementsBefore, statementsFrom, List.foldl_map]

theorem readerAt_succ {text : Text} (h : s.lines[s.bodyIndex .sequence + k]? = some text) :
    readerAt s (k + 1) = (readerAt s k).step (s.bodyIndex .sequence + k) (.ofLine text) := by
  rw [← List.getElem?_drop] at h
  have hlength : ((s.lines.drop (s.bodyIndex .sequence)).take k).length = k :=
    List.length_take_of_le (Nat.le_of_lt (List.getElem?_eq_some_iff.1 h).1)
  rw [readerAt_eq_run, readerAt_eq_run, statementsBefore, statementsBefore, List.take_add_one, h,
    Option.toList_some, statementsFrom_append, hlength, Reader.run_append]
  rfl

/-- What is read is what stands in front of a line, and then what stands behind. -/
theorem statements_eq_append (h : s.bodyIndex .sequence + k ≤ s.lines.length) :
    statements s = statementsBefore s k ++ statementsAt (s.bodyIndex .sequence + k) s := by
  have hlength : ((s.lines.drop (s.bodyIndex .sequence)).take k).length = k :=
    List.length_take_of_le (by rw [List.length_drop]; omega)
  rw [statements_eq, statementsBefore, statementsAt, statementsAt, ← List.drop_drop]
  conv_lhs => rw [← List.take_append_drop k (s.lines.drop _), statementsFrom_append, hlength]

theorem declarations_eq_append (h : s.bodyIndex .sequence + k ≤ s.lines.length) :
    declarations s = (Reader.start s).declarations (statementsBefore s k) ++
      (readerAt s k).declarations (statementsAt (s.bodyIndex .sequence + k) s) := by
  rw [declarations, statements_eq_append h, Reader.declarations_append, readerAt_eq_run]

/-- A participant that is declared in front of a line has its own line there. -/
theorem View.line_lt_of_mem_statementsBefore {d : Participant}
    (hle : s.bodyIndex .sequence + k ≤ s.lines.length)
    (h : (line, .participant d) ∈ statementsBefore s k) : ∃ p i,
      (View.ofSource s).participant? d.name = some p ∧ p.line = some i ∧
        i < s.bodyIndex .sequence + k := by
  obtain ⟨q, hq, -, hqname⟩ := Reader.exists_mem_declarations h (Reader.start s)
  obtain ⟨p, hp⟩ : ∃ p, ((Reader.start s).declarations (statementsBefore s k)).find?
      (·.name = d.name) = some p :=
    Option.isSome_iff_exists.1 (List.find?_isSome.2 ⟨q, hq, by simpa using hqname⟩)
  obtain ⟨i, e, hmem, hline, -⟩ := Reader.mem_declarations (List.mem_of_find?_eq_some hp)
  refine ⟨p, i, ?_, hline, lt_of_mem_statementsBefore hmem⟩
  rw [View.participant?_ofSource, declarations_eq_append hle, List.find?_append, hp]
  rfl

/-- With lines put in at a place, and perhaps others behind them, what is in front is read as before. -/
theorem statements_put {texts rest : List Text}
    (hdecl : s'.declarationOf? .sequence = s.declarationOf? .sequence)
    (h : s.bodyIndex .sequence + k ≤ s.lines.length)
    (hlines : s'.lines = s.lines.take (s.bodyIndex .sequence + k) ++ texts ++ rest) : statements s' =
      statementsBefore s k ++ (statementsFrom (s.bodyIndex .sequence + k) texts ++
        statementsFrom (s.bodyIndex .sequence + k + texts.length) rest) := by
  have hlength : (s.lines.take (s.bodyIndex .sequence + k)).length = s.bodyIndex .sequence + k :=
    List.length_take_of_le h
  have hfront : ((s.lines.take (s.bodyIndex .sequence + k)).drop (s.bodyIndex .sequence)).length = k := by
    rw [List.length_drop, hlength, Nat.add_sub_cancel_left]
  have htake : (s.lines.take (s.bodyIndex .sequence + k)).drop (s.bodyIndex .sequence) =
      (s.lines.drop (s.bodyIndex .sequence)).take k := by
    rw [List.drop_take, Nat.add_sub_cancel_left]
  rw [statements_eq, bodyIndex_congr hdecl, statementsAt, hlines, List.append_assoc,
    List.drop_append_of_le_length (by rw [hlength]; exact Nat.le_add_right _ _),
    statementsFrom_append, hfront, statementsFrom_append, htake]
  rfl

/-- Lines behind the new ones say the same further down. -/
theorem statementsFrom_moveDown (slot count : Nat) (lines : List Text) :
    statementsFrom (slot + count) lines =
      (statementsFrom slot lines).map fun p => (moveDown slot count p.1, p.2) := by
  rw [statementsFrom, numbered_add, statementsFrom, List.map_map, List.map_map]
  refine List.map_congr_left fun p hp => ?_
  have hle := (mem_numbered.1 hp).1
  rw [Function.comp_apply, Function.comp_apply, moveDown, if_neg (Nat.not_lt.2 hle)]

/-- What stands in front of a line stays where it is if only lines behind it move. -/
theorem map_statementsBefore {f : Nat → Nat} (hf : ∀ i < s.bodyIndex .sequence + k, f i = i) :
    ((statementsBefore s k).map fun p => (f p.1, p.2)) = statementsBefore s k := by
  refine (List.map_congr_left (g := id) fun p hp => ?_).trans (List.map_id _)
  exact Prod.ext (hf p.1 (lt_of_mem_statementsBefore hp)) rfl

/-- So it is read as before. -/
theorem moved_readerAt {f : Nat → Nat} (hf : ∀ i < s.bodyIndex .sequence + k, f i = i) :
    (readerAt s k).moved f = readerAt s k := by
  have hstart : (Reader.start s).moved f = Reader.start s := by
    cases hd : s.declarationOf? .sequence with
    | none => simp [Reader.moved, Reader.start, View.moved, hd]
    | some d =>
      have hlt : d < s.bodyIndex .sequence + k := by
        rw [bodyIndex, hd]
        exact Nat.lt_of_lt_of_le (Nat.lt_succ_self d) (Nat.le_add_right _ _)
      simp [Reader.moved, Reader.start, View.moved, hd, hf d hlt]
  rw [readerAt_eq_run, ← Reader.run_moved, hstart, map_statementsBefore hf]

/-- So what stands behind the line is read as before, and all lines have moved then. -/
theorem run_readerAt_map {f : Nat → Nat} (hf : ∀ i < s.bodyIndex .sequence + k, f i = i)
    (sts : List (Nat × Statement)) :
    (readerAt s k).run (sts.map fun p => (f p.1, p.2)) = ((readerAt s k).run sts).moved f := by
  rw [← Reader.run_moved, moved_readerAt hf]

/-! ## One more participant -/

namespace View

/-- The view with one more participant at a position. -/
def withParticipant (k : Nat) (p : ParticipantRecord) (v : View) : View :=
  { v with participants := v.participants.insertIdx k p }

variable {ps : List ParticipantRecord} {g : ParticipantRecord → ParticipantRecord}

theorem alterParticipant_of_notMem (h : name ∉ ps.map (·.name)) :
    alterParticipant name g ps = ps ++ [g { name }] := by
  induction ps with
  | nil => rfl
  | cons q ps ih =>
    rw [List.map_cons, List.mem_cons, not_or] at h
    rw [alterParticipant, if_neg (Ne.symm h.1), ih h.2, List.cons_append]

theorem alterParticipant_insertIdx (h : p.name ≠ name) (hk : k ≤ ps.length) :
    alterParticipant name g (ps.insertIdx k p) = (alterParticipant name g ps).insertIdx k p := by
  induction ps generalizing k with
  | nil =>
    obtain rfl := Nat.le_zero.1 hk
    simp [alterParticipant, h]
  | cons q ps ih =>
    cases k with
    | zero => simp [alterParticipant, h]
    | succ k =>
      rw [List.insertIdx_succ_cons, alterParticipant, alterParticipant]
      split
      · rw [List.insertIdx_succ_cons]
      · rw [ih (Nat.le_of_succ_le_succ hk), List.insertIdx_succ_cons]

theorem length_le_length_alterParticipant :
    ps.length ≤ (alterParticipant name g ps).length := by
  induction ps with
  | nil => exact Nat.zero_le _
  | cons q ps ih =>
    rw [alterParticipant]
    split
    · exact Nat.le_refl _
    · exact Nat.succ_le_succ ih

end View

namespace Reader

/-- The reader with one more participant in its view. -/
def withParticipant (k : Nat) (p : ParticipantRecord) (r : Reader) : Reader :=
  ⟨r.view.withParticipant k p, r.openBlocks⟩

theorem length_participants_le_step (r : Reader) (line : Nat) (st : Statement) :
    r.view.participants.length ≤ (r.step line st).view.participants.length := by
  cases st with
  | participant d => exact View.length_le_length_alterParticipant
  | message m =>
    exact View.length_le_length_alterParticipant.trans View.length_le_length_alterParticipant
  | blockEnd =>
    rw [step]
    split
    · exact Nat.le_refl _
    · next block _ _ => cases block <;> exact Nat.le_refl _
  | separator label =>
    rw [step]
    split <;> exact Nat.le_refl _
  | _ => exact Nat.le_refl _

theorem length_participants_le_run (r : Reader) (sts : List (Nat × Statement)) :
    r.view.participants.length ≤ (r.run sts).view.participants.length := by
  induction sts generalizing r with
  | nil => exact Nat.le_refl _
  | cons p sts ih => exact (length_participants_le_step r p.1 p.2).trans (ih _)

/-- A statement that does not name the participant does the same with it and without it. -/
theorem step_withParticipant (hname : p.name ∉ st.names) (hk : k ≤ r.view.participants.length)
    (line : Nat) : (r.withParticipant k p).step line st = (r.step line st).withParticipant k p := by
  cases st with
  | participant d =>
    have hne : p.name ≠ d.name := fun heq => hname (by simp [Statement.names, heq])
    simp [step, withParticipant, View.withParticipant, View.alter,
      View.alterParticipant_insertIdx hne hk]
  | message m =>
    have hsender : p.name ≠ m.sender := fun heq => hname (by simp [Statement.names, heq])
    have hreceiver : p.name ≠ m.receiver := fun heq => hname (by simp [Statement.names, heq])
    simp [step, withParticipant, View.withParticipant, View.alter,
      View.alterParticipant_insertIdx hsender hk,
      View.alterParticipant_insertIdx hreceiver (hk.trans View.length_le_length_alterParticipant)]
  | blockEnd =>
    rw [step, step]
    cases hopen : r.openBlocks with
    | nil => simp [withParticipant, hopen]
    | cons block outer =>
      cases block <;> simp [withParticipant, View.withParticipant, closeAt, hopen]
  | separator label =>
    rw [step, step]
    cases hopen : r.openBlocks with
    | nil => simp [withParticipant, hopen]
    | cons block outer =>
      cases block <;> simp [withParticipant, View.withParticipant, hopen]
  | _ => rfl

theorem run_withParticipant (hname : p.name ∉ namesOf sts) (hk : k ≤ r.view.participants.length) :
    (r.withParticipant k p).run sts = (r.run sts).withParticipant k p := by
  induction sts generalizing r with
  | nil => rfl
  | cons q sts ih =>
    rw [namesOf_cons, List.mem_append, not_or] at hname
    rw [run_cons, run_cons, step_withParticipant hname.1 hk,
      ih hname.2 (hk.trans (length_participants_le_step r q.1 q.2))]

/-- A new name that is declared is one more participant. -/
theorem step_participant_of_notMem {d : Participant} (h : d.name ∉ r.view.names) (line : Nat) :
    r.step line (.participant d) =
      r.withParticipant r.view.participants.length (r.declared line d) := by
  rw [step, View.alter, View.alterParticipant_of_notMem h, withParticipant, View.withParticipant,
    List.insertIdx_length_self]
  rfl

end Reader

/-- Where the declaration of a new participant is put in, the view has this participant as well, and
everything else moved down. -/
theorem View.ofSource_insert {d : Participant} {text : Text}
    (hdecl : s'.declarationOf? .sequence = s.declarationOf? .sequence)
    (hk : s.bodyIndex .sequence + k ≤ s.lines.length)
    (hlines : s'.lines = s.lines.take (s.bodyIndex .sequence + k) ++ [text] ++
      s.lines.drop (s.bodyIndex .sequence + k))
    (hread : Statement.ofLine text = .participant d) (hnew : d.name ∉ (View.ofSource s).names) :
    (readerAt s k).view.participants.length ≤ (View.ofSource s).participants.length ∧
      View.ofSource s' =
        ((View.ofSource s).moved (moveDown (s.bodyIndex .sequence + k) 1)).withParticipant
          (readerAt s k).view.participants.length
          ((readerAt s k).declared (s.bodyIndex .sequence + k) d) := by
  have hstart : Reader.start s' = Reader.start s := by rw [Reader.start, Reader.start, hdecl]
  have hsplit := statements_eq_append hk
  rw [View.mem_names_iff, hsplit, namesOf_append, List.mem_append, not_or] at hnew
  have hfront : d.name ∉ (readerAt s k).view.names := by
    rw [readerAt_eq_run, Reader.mem_names_run]
    exact hnew.1
  have hback : d.name ∉ namesOf ((statementsAt (s.bodyIndex .sequence + k) s).map
      fun p => (moveDown (s.bodyIndex .sequence + k) 1 p.1, p.2)) := by
    rw [namesOf, List.flatMap_map]
    exact hnew.2
  have hstep : statementsFrom (s.bodyIndex .sequence + k) [text] =
      [(s.bodyIndex .sequence + k, .participant d)] := by
    rw [← hread]
    rfl
  constructor
  · rw [View.ofSource_eq_run, hsplit, Reader.run_append, ← readerAt_eq_run]
    exact Reader.length_participants_le_run _ _
  · rw [View.ofSource_eq_run, statements_put hdecl hk hlines, hstart, Reader.run_append,
      ← readerAt_eq_run, hstep, List.singleton_append, Reader.run_cons,
      Reader.step_participant_of_notMem hfront, List.length_singleton, statementsFrom_moveDown,
      ← statementsAt, Reader.run_withParticipant hback (Nat.le_refl _),
      run_readerAt_map fun i hi => moveDown_of_lt hi 1, View.ofSource_eq_run, hsplit, Reader.run_append,
      ← readerAt_eq_run]
    rfl

/-! ## A declaration on top -/

/-- The view with the declaration of the diagram on another line. -/
def View.withDeclaration (line : Nat) (v : View) : View :=
  { v with declarationLine := some line }

namespace Reader

/-- The reader with the declaration of the diagram on another line. -/
def withDeclaration (line : Nat) (r : Reader) : Reader :=
  ⟨r.view.withDeclaration line, r.openBlocks⟩

/-- No statement looks at the declaration. -/
theorem step_withDeclaration (n : Nat) (r : Reader) (line : Nat) (st : Statement) :
    (r.withDeclaration n).step line st = (r.step line st).withDeclaration n := by
  cases st with
  | blockEnd =>
    rw [step, step]
    cases hopen : r.openBlocks with
    | nil => simp [withDeclaration, hopen]
    | cons block outer =>
      cases block <;> simp [withDeclaration, View.withDeclaration, closeAt, hopen]
  | separator label =>
    rw [step, step]
    cases hopen : r.openBlocks with
    | nil => simp [withDeclaration, hopen]
    | cons block outer =>
      cases block <;> simp [withDeclaration, View.withDeclaration, hopen]
  | _ => rfl

theorem run_withDeclaration (n : Nat) (r : Reader) (sts : List (Nat × Statement)) :
    (r.withDeclaration n).run sts = (r.run sts).withDeclaration n := by
  induction sts generalizing r with
  | nil => rfl
  | cons p sts ih => rw [run_cons, run_cons, step_withDeclaration, ih]

end Reader

/-- With the lines of the body everything in the view is moved, that of the declaration apart. -/
theorem View.ofSource_moved {f : Nat → Nat} {d : Nat} (hdecl : s'.declarationOf? .sequence = some d)
    (hbody : s'.body .sequence = (s.body .sequence).map fun p => (f p.1, p.2)) :
    View.ofSource s' = ((View.ofSource s).moved f).withDeclaration d := by
  have hstart : Reader.start s' = ((Reader.start s).moved f).withDeclaration d := by
    rw [Reader.start, hdecl, Reader.start]
    rfl
  have hsts : statements s' = (statements s).map fun p => (f p.1, p.2) := by
    rw [statements, statements, hbody, List.map_map, List.map_map]
    rfl
  rw [View.ofSource_eq_run, View.ofSource_eq_run, hstart, hsts, Reader.run_withDeclaration,
    Reader.run_moved]
  rfl

/-! ## Boxes that are open -/

/-- A block that is open in front of the lines is open behind them, or it ends on one of them. -/
theorem Reader.stop_readAll {b : OpenBlock} {span : BlockSpan} {lines : List (Nat × Text)}
    (hspan : r.view.span? b = some span) (hopen : b ∈ r.openBlocks) (h : ∀ p ∈ lines, n ≤ p.1) :
    ∃ span', (r.readAll lines).view.span? b = some span' ∧ span'.start = span.start ∧
      (b ∈ (r.readAll lines).openBlocks ∨ n ≤ span'.stop) := by
  refine readAll_invariant (P := fun r => ∃ span', r.view.span? b = some span' ∧
    span'.start = span.start ∧ (b ∈ r.openBlocks ∨ n ≤ span'.stop))
    ⟨span, hspan, rfl, .inl hopen⟩ fun p hp r hr => ?_
  obtain ⟨span', hspan, hstart, hstop⟩ := hr
  generalize Statement.ofLine p.2 = st
  cases hst : st.blockStep with
  | stay =>
    obtain ⟨hfragments, hboxes, hopen⟩ := step_of_stay hst r p.1
    refine ⟨span', ?_, hstart, hopen ▸ hstop⟩
    rw [← hspan]
    cases b <;> simp only [View.span?, hfragments, hboxes]
  | enter =>
    cases st with
    | boxOpen header =>
      exact ⟨span', span?_boxOpen hspan, hstart, hstop.imp_left (List.mem_cons_of_mem _)⟩
    | fragmentOpen header =>
      exact ⟨span', span?_fragmentOpen hspan, hstart, hstop.imp_left (List.mem_cons_of_mem _)⟩
    | _ => cases hst
  | leave =>
    cases st with
    | blockEnd =>
      rw [Reader.step]
      split
      · exact ⟨span', hspan, hstart, hstop⟩
      · next c outer hopen =>
        by_cases hc : c = b
        · subst hc
          exact ⟨_, View.span?_closeAt_self hspan, hstart, .inr (h p hp)⟩
        · refine ⟨span', (View.span?_closeAt_of_ne hc).trans hspan, hstart, hstop.imp_left fun hb => ?_⟩
          rw [hopen] at hb
          exact (List.mem_cons.1 hb).resolve_left (Ne.symm hc)
    | _ => cases hst

/-- In front of a line of the body, the blocks are open that the lines of the body in front of it have
opened. Blocks that are open where the body begins are not seen. -/
theorem follows_readerAt_openersAfter (s : Source) (k : Nat) : (readerAt s k).Follows
    (closedBlocks blockRules (s.bodyIndex .sequence) []
      ((s.lines.drop (s.bodyIndex .sequence)).take k))
    (openersAfter blockRules (s.bodyIndex .sequence) []
      ((s.lines.drop (s.bodyIndex .sequence)).take k)) := by
  have hstart : (Reader.start s).Follows [] [] := ⟨.refl [], rfl⟩
  exact hstart.readAll (List.pairwise_singleton ..) _

section Balanced

variable (hbalance : s.checkBalance blockRules = .ok ())
include hbalance

/-- Behind the last line of a balanced source no block is open. -/
theorem openBlocks_readerAt_length :
    (readerAt s (s.lines.drop (s.bodyIndex .sequence)).length).openBlocks = [] := by
  obtain ⟨depth, -, hdepth⟩ : ∃ depth, depthAfter? blockRules 0 (s.lines.take (s.bodyIndex .sequence)) =
      some depth ∧ depthAfter? blockRules depth (s.lines.drop (s.bodyIndex .sequence)) = some 0 := by
    rw [← Option.bind_eq_some_iff, ← depthAfter?_append, List.take_append_drop]
    exact checkBalance_eq_ok_iff.1 hbalance
  have hopeners : (openersAfter blockRules (s.bodyIndex .sequence) []
      (s.lines.drop (s.bodyIndex .sequence))).length ≤ 0 :=
    length_openersAfter_le hdepth (Nat.zero_le depth)
  have hfollows := (follows_readerAt_openersAfter s (s.lines.drop (s.bodyIndex .sequence)).length).openBlocks
  rw [List.take_length, List.eq_nil_of_length_eq_zero (Nat.le_zero.1 hopeners)] at hfollows
  exact List.map_eq_nil_iff.1 hfollows

/-- A box that is open in front of a line of the body begins in front of it and does not end there. -/
theorem exists_box_of_open (h : .box i ∈ (readerAt s k).openBlocks) :
    ∃ b, (View.ofSource s).boxes[i]? = some b ∧ b.span.start < s.bodyIndex .sequence + k ∧
      s.bodyIndex .sequence + k ≤ b.span.stop := by
  have hfollows := follows_readerAt_openersAfter s k
  obtain ⟨start, hstart, hspan⟩ : ∃ start ∈ _, (readerAt s k).view.span? (.box i) =
    some (.single start) := hfollows.span?_of_mem h
  have hlt : start < s.bodyIndex .sequence + k := by
    have hpairwise : (_ :: openersAfter blockRules (s.bodyIndex .sequence) [] _).Pairwise (· > ·) :=
      pairwise_openersAfter (List.pairwise_singleton ..) ((s.lines.drop (s.bodyIndex .sequence)).take k)
    exact Nat.lt_of_lt_of_le (List.rel_of_pairwise_cons hpairwise hstart)
      (Nat.add_le_add_left (List.length_take_le _ _) _)
  have hrest : ∀ p ∈ numbered (s.bodyIndex .sequence + ((s.lines.drop (s.bodyIndex .sequence)).take k).length)
      ((s.lines.drop (s.bodyIndex .sequence)).drop k), s.bodyIndex .sequence + k ≤ p.1 := by
    intro p hp
    obtain ⟨hle, hline⟩ := mem_numbered.1 hp
    have hlt := (List.getElem?_eq_some_iff.1 hline).1
    rw [List.length_drop] at hlt
    rwa [List.length_take_of_le (by omega)] at hle
  obtain ⟨span, hspan', hspanStart, hstop⟩ := Reader.stop_readAll hspan h hrest
  have hall : (readerAt s k).readAll (numbered
      (s.bodyIndex .sequence + ((s.lines.drop (s.bodyIndex .sequence)).take k).length)
      ((s.lines.drop (s.bodyIndex .sequence)).drop k)) =
        readerAt s (s.lines.drop (s.bodyIndex .sequence)).length := by
    rw [readerAt, readerAt, Reader.readAll, Reader.readAll, Reader.readAll, ← List.foldl_append,
      ← numbered_append, List.take_append_drop, List.take_length]
  rw [hall, openBlocks_readerAt_length hbalance] at hstop
  rw [hall, ← ofSource_eq_readerAt, View.span?, List.getElem?_map] at hspan'
  obtain ⟨b, hb, rfl⟩ := Option.map_eq_some_iff.1 hspan'
  exact ⟨b, hb, hspanStart ▸ hlt, hstop.resolve_left List.not_mem_nil⟩

end Balanced

end DiagramEditor.Sequence
