import DiagramEditor.Proofs.Sequence.Block
import DiagramEditor.Proofs.Source.Renumber

/-!
# What the statements come to

The body of a sequence diagram is a list of statements with their lines (`statements`). Its messages
and notes are those that the statements say, one after the other (`View.messages_ofSource`,
`View.notes_ofSource`). Its fragments, its boxes and the blocks that are open depend on the statements
about blocks alone (`Reader.outline_run_filter`). Statements on other lines are read in the same way,
with the lines of the view moved (`Reader.run_moved`).
-/

namespace DiagramEditor.Sequence

open Text Source

variable {r r' : Reader} {line : Nat} {st : Statement} {sts sts' : List (Nat × Statement)}
  {f : Nat → Nat} {s s' : Source}

/-! ## Statements -/

/-- The statements on the lines, the first of which has the number `start`. -/
def statementsFrom (start : Nat) (lines : List Text) : List (Nat × Statement) :=
  (numbered start lines).map fun p => (p.1, .ofLine p.2)

/-- The statements from line number `n` on. -/
def statementsAt (n : Nat) (s : Source) : List (Nat × Statement) :=
  statementsFrom n (s.lines.drop n)

/-- The statements of the body with their lines. -/
def statements (s : Source) : List (Nat × Statement) :=
  (s.body .sequence).map fun p => (p.1, .ofLine p.2)

theorem statements_eq (s : Source) : statements s = statementsAt (s.bodyIndex .sequence) s := by
  rw [statements, body_eq_numbered]
  rfl

theorem mem_statements_iff : (line, st) ∈ statements s ↔ s.bodyIndex .sequence ≤ line ∧
    ∃ text, s.lines[line]? = some text ∧ Statement.ofLine text = st := by
  simp only [statements, List.mem_map, Prod.exists, Prod.mk.injEq, body_eq_numbered, mem_numbered,
    List.getElem?_drop]
  constructor
  · rintro ⟨_, text, ⟨hle, htext⟩, rfl, rfl⟩
    rw [Nat.add_sub_cancel' hle] at htext
    exact ⟨hle, text, htext, rfl⟩
  · rintro ⟨hle, text, htext, rfl⟩
    refine ⟨line, text, ⟨hle, ?_⟩, rfl, rfl⟩
    rw [Nat.add_sub_cancel' hle, htext]

theorem statementsFrom_append (start : Nat) (lines more : List Text) :
    statementsFrom start (lines ++ more) =
      statementsFrom start lines ++ statementsFrom (start + lines.length) more := by
  rw [statementsFrom, numbered_append, List.map_append]
  rfl

/-- A line says one thing. -/
theorem statement_unique {st' : Statement} (h : (line, st) ∈ statements s)
    (h' : (line, st') ∈ statements s) : st = st' := by
  obtain ⟨⟨i, text⟩, hmem, heq⟩ := List.mem_map.1 h
  obtain ⟨⟨i', text'⟩, hmem', heq'⟩ := List.mem_map.1 h'
  obtain ⟨rfl, rfl⟩ := Prod.mk.inj heq
  obtain ⟨rfl, rfl⟩ := Prod.mk.inj heq'
  rw [body_eq_numbered] at hmem hmem'
  rw [eq_of_mem_numbered hmem hmem']

theorem pairwise_statements (s : Source) : (statements s).Pairwise fun p q => p.1 < q.1 := by
  rw [statements, List.pairwise_map, body_eq_numbered]
  exact pairwise_numbered _ _

namespace Statement

/-- The message that is said. -/
def message? : Statement → Option Message
  | message m => some m
  | _ => none

theorem message?_eq_some {m : Message} : st.message? = some m ↔ st = .message m := by
  cases st <;> simp [message?]

/-- The note that is said. -/
def note? : Statement → Option Note
  | note n => some n
  | _ => none

theorem note?_eq_some {n : Note} : st.note? = some n ↔ st = .note n := by
  cases st <;> simp [note?]

/-- The box that is opened. -/
def box? : Statement → Option BoxHeader
  | boxOpen h => some h
  | _ => none

/-- The fragment that is opened. -/
def fragment? : Statement → Option FragmentHeader
  | fragmentOpen h => some h
  | _ => none

/-- The statement opens, closes or divides a block. -/
def isOnBlocks : Statement → Bool
  | boxOpen _ | fragmentOpen _ | blockEnd | separator _ => true
  | _ => false

theorem blockStep_of_not_isOnBlocks (h : st.isOnBlocks = false) : st.blockStep = .stay := by
  cases st <;> first | rfl | cases h

/-- The statement says a message or a note, or it opens a block. -/
def isEntry (st : Statement) : Bool :=
  st.message?.isSome || st.note?.isSome || st.box?.isSome || st.fragment?.isSome

theorem isEntry_eq_false_iff : st.isEntry = false ↔
    st.message? = none ∧ st.note? = none ∧ st.box? = none ∧ st.fragment? = none := by
  simp [isEntry, and_assoc]

end Statement

/-- What `part` finds in the statements, with the lines. -/
def said {α : Type} (part : Statement → Option α) (sts : List (Nat × Statement)) : List (Nat × α) :=
  sts.filterMap fun p => (part p.2).map fun a => (p.1, a)

section Said

variable {α : Type} {part : Statement → Option α}

@[simp] theorem said_nil : said part [] = [] := rfl

theorem said_cons (p : Nat × Statement) (sts : List (Nat × Statement)) :
    said part (p :: sts) = ((part p.2).map fun a => (p.1, a)).toList ++ said part sts := by
  rw [said, List.filterMap_cons]
  cases part p.2 <;> rfl

theorem said_message_cons (line : Nat) (m : Message) (sts : List (Nat × Statement)) :
    said Statement.message? ((line, .message m) :: sts) = (line, m) :: said Statement.message? sts :=
  rfl

@[simp] theorem said_append (sts sts' : List (Nat × Statement)) :
    said part (sts ++ sts') = said part sts ++ said part sts' :=
  List.filterMap_append

theorem mem_said {a : α} : (line, a) ∈ said part sts ↔ ∃ st, (line, st) ∈ sts ∧ part st = some a := by
  simp only [said, List.mem_filterMap, Option.map_eq_some_iff, Prod.exists, Prod.mk.injEq]
  constructor
  · rintro ⟨_, st, hmem, _, hpart, rfl, rfl⟩
    exact ⟨st, hmem, hpart⟩
  · rintro ⟨st, hmem, hpart⟩
    exact ⟨line, st, hmem, a, hpart, rfl, rfl⟩

theorem map_snd_said (part : Statement → Option α) (sts : List (Nat × Statement)) :
    (said part sts).map Prod.snd = (sts.map Prod.snd).filterMap part := by
  rw [said, List.map_filterMap, List.filterMap_map]
  congr 1
  funext p
  rw [Option.map_map]
  exact Option.map_id'

theorem map_fst_said_sublist (part : Statement → Option α) (sts : List (Nat × Statement)) :
    ((said part sts).map Prod.fst).Sublist (sts.map Prod.fst) := by
  induction sts with
  | nil => exact .slnil
  | cons p sts ih =>
    rw [said_cons, List.map_cons]
    cases part p.2 with
    | none => exact ih.cons p.1
    | some a => exact ih.cons_cons p.1

/-- What the statements say that are kept, where those change and move to other lines. -/
theorem said_map_filter (keep : Nat → Bool) (change : Statement → Statement) (g : α → α)
    (h : ∀ p ∈ sts, keep p.1 = true → part (change p.2) = (part p.2).map g) :
    said part ((sts.filter fun p => keep p.1).map fun p => (f p.1, change p.2)) =
      ((said part sts).filter fun p => keep p.1).map fun p => (f p.1, g p.2) := by
  induction sts with
  | nil => rfl
  | cons p sts ih =>
    obtain ⟨hp, hsts⟩ := List.forall_mem_cons.1 h
    rw [said_cons, List.filter_append, List.map_append, ← ih hsts]
    cases hkeep : keep p.1 with
    | true =>
      rw [List.filter_cons_of_pos (by exact hkeep), List.map_cons, said_cons, hp hkeep]
      cases part p.2 <;> simp [hkeep]
    | false =>
      rw [List.filter_cons_of_neg (by simp [hkeep])]
      cases part p.2 <;> simp [hkeep]

/-- What is said at a place, with the statements before and behind it. -/
theorem exists_split_of_said {a : α} {i : Nat} (h : (said part sts)[i]? = some (line, a)) :
    ∃ before st after, sts = before ++ (line, st) :: after ∧ part st = some a ∧
      (said part before).length = i := by
  induction sts generalizing i with
  | nil => cases h
  | cons p sts ih =>
    rw [said_cons] at h
    cases hp : part p.2 with
    | none =>
      rw [hp] at h
      obtain ⟨before, st, after, rfl, hst, rfl⟩ := ih h
      exact ⟨p :: before, st, after, rfl, hst, by rw [said_cons, hp]; rfl⟩
    | some b =>
      rw [hp] at h
      cases i with
      | zero =>
        cases h
        exact ⟨[], p.2, sts, rfl, hp, rfl⟩
      | succ i =>
        obtain ⟨before, st, after, rfl, hst, rfl⟩ := ih h
        refine ⟨p :: before, st, after, rfl, hst, ?_⟩
        rw [said_cons, hp, List.length_append]
        exact Nat.add_comm ..

theorem said_eq_nil (h : ∀ p ∈ sts, part p.2 = none) : said part sts = [] :=
  List.filterMap_eq_nil_iff.2 fun p hp => by rw [h p hp]; rfl

end Said

namespace Reader

/-- The statements read one after the other. -/
def run (r : Reader) (sts : List (Nat × Statement)) : Reader :=
  sts.foldl (fun r p => r.step p.1 p.2) r

theorem run_cons (r : Reader) (p : Nat × Statement) (sts : List (Nat × Statement)) :
    r.run (p :: sts) = (r.step p.1 p.2).run sts := rfl

theorem run_append (r : Reader) (sts sts' : List (Nat × Statement)) :
    r.run (sts ++ sts') = (r.run sts).run sts' :=
  List.foldl_append

end Reader

theorem View.ofSource_eq_run (s : Source) :
    View.ofSource s = ((Reader.start s).run (statements s)).view := by
  rw [View.ofSource_eq, Reader.run, statements, List.foldl_map]
  rfl

/-! ## Messages and notes -/

namespace Reader

/-- Of a single statement the view gets the message that it says. -/
theorem messages_step (r : Reader) (line : Nat) (st : Statement) :
    (r.step line st).view.messages = r.view.messages ++
      (st.message?.map fun m => ⟨r.view.messages.length, line, m⟩).toList := by
  cases st with
  | message m => rfl
  | blockEnd =>
    rw [step]
    split
    · exact (List.append_nil _).symm
    · next block _ _ => cases block <;> exact (List.append_nil _).symm
  | separator label =>
    rw [step]
    split <;> exact (List.append_nil _).symm
  | _ => exact (List.append_nil _).symm

/-- Of a single statement the view gets the note that it says. -/
theorem notes_step (r : Reader) (line : Nat) (st : Statement) :
    (r.step line st).view.notes = r.view.notes ++
      (st.note?.map fun n => ⟨r.view.notes.length, line, n⟩).toList := by
  cases st with
  | note n => rfl
  | blockEnd =>
    rw [step]
    split
    · exact (List.append_nil _).symm
    · next block _ _ => cases block <;> exact (List.append_nil _).symm
  | separator label =>
    rw [step]
    split <;> exact (List.append_nil _).symm
  | _ => exact (List.append_nil _).symm

/-- Records that every statement adds to come down to what the statements say, one after the other. -/
theorem records_run {α β : Type} {part : Statement → Option α} {record : Nat → Nat × α → β}
    (records : Reader → List β)
    (hstep : ∀ r line st, records (r.step line st) = records r ++
      ((part st).map fun a => record (records r).length (line, a)).toList)
    (hr : records r = []) (sts : List (Nat × Statement)) :
    records (r.run sts) = (said part sts).mapIdx record := by
  have hfront : ∀ (sts : List (Nat × Statement)) (r : Reader) (front : List (Nat × α)),
      records r = front.mapIdx record →
        records (r.run sts) = (front ++ said part sts).mapIdx record := by
    intro sts
    induction sts with
    | nil =>
      intro r front hr
      rw [said_nil, List.append_nil]
      exact hr
    | cons p sts ih =>
      intro r front hr
      rw [run_cons, said_cons, ← List.append_assoc]
      refine ih _ _ ?_
      rw [hstep, hr, List.length_mapIdx, List.mapIdx_append]
      cases part p.2 with
      | none => rfl
      | some a => simp
  exact hfront sts r [] hr

end Reader

/-- The messages of a source are those that its statements say. -/
theorem View.messages_ofSource (s : Source) : (View.ofSource s).messages =
    (said Statement.message? (statements s)).mapIdx fun i p => ⟨i, p.1, p.2⟩ := by
  rw [View.ofSource_eq_run]
  exact Reader.records_run (fun r => r.view.messages) Reader.messages_step rfl _

/-- A message of the view stands on its line, behind as many messages as its index says. -/
theorem View.exists_split_of_message {i : Nat} {m : MessageRecord}
    (h : (View.ofSource s).message? i = some m) : ∃ before after,
      statements s = before ++ (m.line, .message m.message) :: after ∧
        (said Statement.message? before).length = i := by
  rw [message?, messages_ofSource, List.getElem?_mapIdx] at h
  obtain ⟨p, hp, rfl⟩ := Option.map_eq_some_iff.1 h
  obtain ⟨before, st, after, hsts, hst, hlength⟩ := exists_split_of_said hp
  rw [Statement.message?_eq_some.1 hst] at hsts
  exact ⟨before, after, hsts, hlength⟩

/-- The notes of a source are those that its statements say. -/
theorem View.notes_ofSource (s : Source) : (View.ofSource s).notes =
    (said Statement.note? (statements s)).mapIdx fun i p => ⟨i, p.1, p.2⟩ := by
  rw [View.ofSource_eq_run]
  exact Reader.records_run (fun r => r.view.notes) Reader.notes_step rfl _

theorem View.map_messages_ofSource (s : Source) :
    ((View.ofSource s).messages.map fun r => (r.line, r.message)) =
      said Statement.message? (statements s) := by
  rw [View.messages_ofSource]
  exact map_mapIdx (fun _ _ => rfl) _

theorem View.map_notes_ofSource (s : Source) :
    ((View.ofSource s).notes.map fun r => (r.line, r.note)) =
      said Statement.note? (statements s) := by
  rw [View.notes_ofSource]
  exact map_mapIdx (fun _ _ => rfl) _

theorem View.exists_mem_messages_iff {m : Message} :
    (∃ r ∈ (View.ofSource s).messages, r.line = line ∧ r.message = m) ↔
      (line, .message m) ∈ statements s := by
  have hmem : (line, m) ∈ said Statement.message? (statements s) ↔
      ∃ r ∈ (View.ofSource s).messages, r.line = line ∧ r.message = m := by
    simp [← View.map_messages_ofSource]
  rw [← hmem, mem_said]
  simp [Statement.message?_eq_some]

theorem View.exists_mem_notes_iff {n : Note} :
    (∃ r ∈ (View.ofSource s).notes, r.line = line ∧ r.note = n) ↔
      (line, .note n) ∈ statements s := by
  have hmem : (line, n) ∈ said Statement.note? (statements s) ↔
      ∃ r ∈ (View.ofSource s).notes, r.line = line ∧ r.note = n := by
    simp [← View.map_notes_ofSource]
  rw [← hmem, mem_said]
  simp [Statement.note?_eq_some]

/-! ## Blocks -/

namespace Reader

/-- The blocks of the view, and those that are open. -/
def outline (r : Reader) : List FragmentRecord × List BoxRecord × List OpenBlock :=
  (r.view.fragments, r.view.boxes, r.openBlocks)

theorem outline_eq_iff : r.outline = r'.outline ↔ r.view.fragments = r'.view.fragments ∧
    r.view.boxes = r'.view.boxes ∧ r.openBlocks = r'.openBlocks := by
  rw [outline, outline, Prod.mk.injEq, Prod.mk.injEq]

/-- A statement that is not about blocks leaves them as they are. -/
theorem outline_step_of_not (h : st.isOnBlocks = false) (r : Reader) (line : Nat) :
    (r.step line st).outline = r.outline := by
  cases st <;> first | rfl | cases h

/-- What a statement does to the blocks depends on nothing but the blocks. -/
theorem outline_step (h : r.outline = r'.outline) (line : Nat) (st : Statement) :
    (r.step line st).outline = (r'.step line st).outline := by
  cases hst : st.isOnBlocks with
  | false => rw [outline_step_of_not hst, outline_step_of_not hst, h]
  | true =>
    obtain ⟨hfragments, hboxes, hopen⟩ := outline_eq_iff.1 h
    cases st with
    | blockEnd =>
      rw [step, step, hopen]
      split
      · exact h
      · next block _ _ =>
        cases block <;> rw [outline_eq_iff] <;> simp [closeAt, hfragments, hboxes]
    | separator label =>
      rw [step, step, hopen]
      split
      · rw [outline_eq_iff]
        simp [hfragments, hboxes]
      · exact h
    | boxOpen header => simp [outline_eq_iff, step, hfragments, hboxes, hopen]
    | fragmentOpen header => simp [outline_eq_iff, step, hfragments, hboxes, hopen]
    | _ => cases hst

theorem outline_run_filter (r : Reader) (sts : List (Nat × Statement)) :
    (r.run (sts.filter (·.2.isOnBlocks))).outline = (r.run sts).outline := by
  have hcongr : ∀ (sts : List (Nat × Statement)) (r r' : Reader), r.outline = r'.outline →
      (r.run (sts.filter (·.2.isOnBlocks))).outline = (r'.run sts).outline := by
    intro sts
    induction sts with
    | nil => exact fun _ _ h => h
    | cons p sts ih =>
      intro r r' h
      cases hp : p.2.isOnBlocks with
      | true =>
        rw [List.filter_cons_of_pos (by exact hp), run_cons, run_cons]
        exact ih _ _ (outline_step h p.1 p.2)
      | false =>
        rw [List.filter_cons_of_neg (by simp [hp]), run_cons]
        exact ih _ _ (h.trans (outline_step_of_not hp r' p.1).symm)
  exact hcongr sts r r rfl

/-- The blocks depend on the statements about blocks alone. -/
theorem outline_run (h : r.outline = r'.outline)
    (hsts : sts.filter (·.2.isOnBlocks) = sts'.filter (·.2.isOnBlocks)) :
    (r.run sts).outline = (r'.run sts').outline := by
  rw [← outline_run_filter r sts, ← outline_run_filter r' sts', hsts]
  exact List.foldl_rel (r := fun r r' : Reader => r.outline = r'.outline) h
    fun p _ _ _ h => outline_step h p.1 p.2

/-- Where no block is open, only a header has an effect on the blocks. -/
theorem outline_run_of_not_isEntry (hr : r.openBlocks = []) (h : ∀ p ∈ sts, p.2.isEntry = false) :
    (r.run sts).outline = r.outline := by
  induction sts generalizing r with
  | nil => rfl
  | cons p sts ih =>
    obtain ⟨hp, hsts⟩ := List.forall_mem_cons.1 h
    have hstep : (r.step p.1 p.2).outline = r.outline := by
      obtain ⟨-, -, hbox, hfragment⟩ := Statement.isEntry_eq_false_iff.1 hp
      cases hst : p.2 with
      | boxOpen header => rw [hst] at hbox; cases hbox
      | fragmentOpen header => rw [hst] at hfragment; cases hfragment
      | blockEnd => simp only [step, hr]
      | separator label => simp only [step, hr]
      | _ => rfl
    have hopen : (r.step p.1 p.2).openBlocks = [] := (outline_eq_iff.1 hstep).2.2.trans hr
    rw [run_cons, ih hopen hsts, hstep]

/-- Every box that is opened is one of the view. -/
theorem length_boxes_run (r : Reader) (sts : List (Nat × Statement)) :
    (r.run sts).view.boxes.length = r.view.boxes.length + (said Statement.box? sts).length := by
  have hstep : ∀ (r : Reader) (line : Nat) (st : Statement), (r.step line st).view.boxes.length =
      r.view.boxes.length + (st.box?.map fun a => (line, a)).toList.length := by
    intro r line st
    cases st with
    | boxOpen header => simp [step, Statement.box?]
    | blockEnd =>
      rw [step]
      split
      · rfl
      · next block _ _ => cases block <;> simp [closeAt, Statement.box?]
    | separator label =>
      rw [step]
      split <;> rfl
    | _ => rfl
  induction sts generalizing r with
  | nil => rfl
  | cons p sts ih => rw [run_cons, ih, hstep, said_cons, List.length_append, Nat.add_assoc]

/-- Every fragment that is opened is one of the view. -/
theorem length_fragments_run (r : Reader) (sts : List (Nat × Statement)) :
    (r.run sts).view.fragments.length =
      r.view.fragments.length + (said Statement.fragment? sts).length := by
  have hstep : ∀ (r : Reader) (line : Nat) (st : Statement), (r.step line st).view.fragments.length =
      r.view.fragments.length + (st.fragment?.map fun a => (line, a)).toList.length := by
    intro r line st
    cases st with
    | fragmentOpen header => simp [step, Statement.fragment?]
    | blockEnd =>
      rw [step]
      split
      · rfl
      · next block _ _ => cases block <;> simp [closeAt, Statement.fragment?]
    | separator label =>
      rw [step]
      split
      · simp [Statement.fragment?]
      · rfl
    | _ => rfl
  induction sts generalizing r with
  | nil => rfl
  | cons p sts ih => rw [run_cons, ih, hstep, said_cons, List.length_append, Nat.add_assoc]

end Reader

theorem View.length_boxes_ofSource (s : Source) : (View.ofSource s).boxes.length =
    (said Statement.box? (statements s)).length := by
  rw [View.ofSource_eq_run, Reader.length_boxes_run]
  exact Nat.zero_add _

theorem View.length_fragments_ofSource (s : Source) : (View.ofSource s).fragments.length =
    (said Statement.fragment? (statements s)).length := by
  rw [View.ofSource_eq_run, Reader.length_fragments_run]
  exact Nat.zero_add _

/-! ## Lines that change -/

theorem nodup_map_fst_statements (s : Source) : ((statements s).map Prod.fst).Nodup :=
  List.pairwise_map.2 ((pairwise_statements s).imp Nat.ne_of_lt)

/-- A line at the end is read last. -/
theorem statements_pushLine {text : Text}
    (h : (s.pushLine text).declarationOf? .sequence = s.declarationOf? .sequence) :
    statements (s.pushLine text) = statements s ++ [(s.length, .ofLine text)] := by
  rw [statements, statements, body_pushLine h, List.map_append]
  rfl

/-- A line is read anew where it stands. -/
theorem statements_set {text : Text}
    (h : s'.declarationOf? .sequence = s.declarationOf? .sequence)
    (hline : s.bodyIndex .sequence ≤ line) (hlines : s'.lines = s.lines.set line text) :
    statements s' =
      (statements s).map fun p => (p.1, if line = p.1 then .ofLine text else p.2) := by
  rw [statements, statements, body_set h hline hlines, List.map_map, List.map_map]
  refine List.map_congr_left fun p _ => Prod.ext rfl ?_
  dsimp only [Function.comp_apply]
  split <;> rfl

/-- The statements on the lines that are kept, with their new numbers, where the texts of the lines
change so that `change` is done to what they say. -/
theorem statementsAt_map_filter (keep : Nat → Bool) (change : Statement → Statement)
    {g : Nat × Text → Text}
    (hlines : s'.lines = ((numbered 0 s.lines).filter fun p => keep p.1).map g)
    (hkeep : ∀ i < s.bodyIndex .sequence, keep i = true)
    (hg : ∀ p ∈ s.body .sequence, keep p.1 = true →
      Statement.ofLine (g p) = change (.ofLine p.2)) :
    statementsAt (s.bodyIndex .sequence) s' =
      ((statements s).filter fun p => keep p.1).map fun p => (rank keep p.1, change p.2) := by
  rw [statementsAt, statementsFrom, hlines,
    numbered_drop_map_filter hkeep (bodyIndex_le .sequence s), ← body_eq_numbered, statements,
    List.filter_map, List.map_map, List.map_map]
  refine List.map_congr_left fun p hp => ?_
  obtain ⟨hp, hkept⟩ := List.mem_filter.1 hp
  exact congrArg (Prod.mk _) (hg p hp hkept)

/-! ## Lines that are not read -/

/-- What is read of the new source are the statements from the old body on, without those on the
unread lines. -/
theorem statements_eq_drop (h : s.bodyIndex .sequence ≤ s'.bodyIndex .sequence) :
    statements s' =
      (statementsAt (s.bodyIndex .sequence) s').drop (unreadLines .sequence s s').length := by
  rw [statements, body_eq_drop h, List.map_drop]
  rfl

theorem mem_statementsAt_of_mem_statements (h : s.bodyIndex .sequence ≤ s'.bodyIndex .sequence)
    {p : Nat × Statement} (hp : p ∈ statements s') : p ∈ statementsAt (s.bodyIndex .sequence) s' := by
  rw [statements_eq_drop h] at hp
  exact List.mem_of_mem_drop hp

theorem map_take_statementsAt (s s' : Source) : ((statementsAt (s.bodyIndex .sequence) s').take
    (unreadLines .sequence s s').length).map Prod.snd =
      (unreadLines .sequence s s').map Statement.ofLine := by
  conv_rhs => rw [unreadLines_eq_take, ← map_snd_numbered (s.bodyIndex .sequence) (s'.lines.drop _)]
  rw [List.map_take, List.map_take, statementsAt, statementsFrom, List.map_map, List.map_map]
  rfl

/-- All lines say what the unread lines say, and then what is read. -/
theorem said_statementsAt {α : Type} {part : Statement → Option α}
    (h : s.bodyIndex .sequence ≤ s'.bodyIndex .sequence) :
    said part (statementsAt (s.bodyIndex .sequence) s') =
      said part ((statementsAt (s.bodyIndex .sequence) s').take
        (unreadLines .sequence s s').length) ++ said part (statements s') := by
  rw [statements_eq_drop h, ← said_append, List.take_append_drop]

theorem said_take_eq_nil_iff {α : Type} {part : Statement → Option α} :
    said part ((statementsAt (s.bodyIndex .sequence) s').take
      (unreadLines .sequence s s').length) = [] ↔
        ∀ text ∈ unreadLines .sequence s s', part (.ofLine text) = none := by
  have hmap : ∀ sts : List (Nat × Statement), said part sts = [] ↔
      ∀ st ∈ sts.map Prod.snd, part st = none := by
    intro sts
    rw [said, List.filterMap_eq_nil_iff, List.forall_mem_map]
    simp only [Option.map_eq_none_iff]
  rw [hmap, map_take_statementsAt, List.forall_mem_map]

/-- What the unread lines do not say is said behind them. -/
theorem said_statements {α : Type} {part : Statement → Option α}
    (h : s.bodyIndex .sequence ≤ s'.bodyIndex .sequence)
    (hunread : ∀ text ∈ unreadLines .sequence s s', part (.ofLine text) = none) :
    said part (statements s') = said part (statementsAt (s.bodyIndex .sequence) s') := by
  rw [said_statementsAt h, said_take_eq_nil_iff.2 hunread, List.nil_append]

/-- Only then is as much said behind them as on all lines. -/
theorem length_said_statements_iff {α : Type} {part : Statement → Option α}
    (h : s.bodyIndex .sequence ≤ s'.bodyIndex .sequence) :
    (said part (statements s')).length = (said part (statementsAt (s.bodyIndex .sequence) s')).length ↔
      ∀ text ∈ unreadLines .sequence s s', part (.ofLine text) = none := by
  rw [said_statementsAt h, ← said_take_eq_nil_iff, List.length_append, Nat.right_eq_add,
    List.length_eq_zero_iff]

/-- Sources whose statements about blocks are the same have the same fragments and boxes. -/
theorem View.blocks_eq (h : (statements s').filter (·.2.isOnBlocks) =
    (statements s).filter (·.2.isOnBlocks)) :
    (View.ofSource s').fragments = (View.ofSource s).fragments ∧
      (View.ofSource s').boxes = (View.ofSource s).boxes := by
  have hstart : (Reader.start s').outline = (Reader.start s).outline := rfl
  obtain ⟨hfragments, hboxes, -⟩ := Reader.outline_eq_iff.1 (Reader.outline_run hstart h)
  rw [View.ofSource_eq_run, View.ofSource_eq_run]
  exact ⟨hfragments, hboxes⟩

/-- No entry is unread if and only if as much is said of every kind as on all lines. -/
theorem forall_isEntry_iff (h : s.bodyIndex .sequence ≤ s'.bodyIndex .sequence) :
    (∀ text ∈ unreadLines .sequence s s', (Statement.ofLine text).isEntry = false) ↔
      (said Statement.message? (statements s')).length =
          (said Statement.message? (statementsAt (s.bodyIndex .sequence) s')).length ∧
        (said Statement.note? (statements s')).length =
          (said Statement.note? (statementsAt (s.bodyIndex .sequence) s')).length ∧
        (said Statement.box? (statements s')).length =
          (said Statement.box? (statementsAt (s.bodyIndex .sequence) s')).length ∧
        (said Statement.fragment? (statements s')).length =
          (said Statement.fragment? (statementsAt (s.bodyIndex .sequence) s')).length := by
  rw [length_said_statements_iff h, length_said_statements_iff h, length_said_statements_iff h,
    length_said_statements_iff h, ← forall₂_and, ← forall₂_and, ← forall₂_and]
  exact forall₂_congr fun text _ => Statement.isEntry_eq_false_iff

/-- Without entries on the unread lines, the blocks are those of all lines. -/
theorem outline_statements (h : s.bodyIndex .sequence ≤ s'.bodyIndex .sequence)
    (hunread : ∀ text ∈ unreadLines .sequence s s', (Statement.ofLine text).isEntry = false)
    (hr : r.openBlocks = []) :
    (r.run (statements s')).outline = (r.run (statementsAt (s.bodyIndex .sequence) s')).outline := by
  have hfront : ∀ p ∈ (statementsAt (s.bodyIndex .sequence) s').take
      (unreadLines .sequence s s').length, p.2.isEntry = false := by
    intro p hp
    have hmem := List.mem_map_of_mem (f := Prod.snd) hp
    rw [map_take_statementsAt, List.mem_map] at hmem
    obtain ⟨text, htext, hst⟩ := hmem
    rw [← hst]
    exact hunread text htext
  conv_rhs => rw [← List.take_append_drop (unreadLines .sequence s s').length
    (statementsAt (s.bodyIndex .sequence) s'), ← statements_eq_drop h, Reader.run_append]
  exact Reader.outline_run (Reader.outline_run_of_not_isEntry hr hfront).symm rfl

/-! ## Lines moved -/

/-- The participant with its line moved. -/
def ParticipantRecord.moved (f : Nat → Nat) (p : ParticipantRecord) : ParticipantRecord :=
  { p with line := p.line.map f }

/-- The message with its line moved. -/
def MessageRecord.moved (f : Nat → Nat) (m : MessageRecord) : MessageRecord :=
  { m with line := f m.line }

/-- The note with its line moved. -/
def NoteRecord.moved (f : Nat → Nat) (n : NoteRecord) : NoteRecord :=
  { n with line := f n.line }

/-- The fragment with its lines moved. -/
def FragmentRecord.moved (f : Nat → Nat) (b : FragmentRecord) : FragmentRecord :=
  { b with span := b.span.moved f, sections := b.sections.map fun p => (f p.1, p.2) }

/-- The box with its lines moved. -/
def BoxRecord.moved (f : Nat → Nat) (b : BoxRecord) : BoxRecord :=
  { b with span := b.span.moved f }

/-- The view with all its lines moved. -/
def View.moved (f : Nat → Nat) (v : View) : View where
  declarationLine := v.declarationLine.map f
  autonumberLine := v.autonumberLine.map f
  participants := v.participants.map (·.moved f)
  messages := v.messages.map (·.moved f)
  notes := v.notes.map (·.moved f)
  fragments := v.fragments.map (·.moved f)
  boxes := v.boxes.map (·.moved f)

/-- Lines that move twice move by both. -/
theorem View.moved_moved (f g : Nat → Nat) (v : View) : (v.moved g).moved f = v.moved (f ∘ g) := by
  simp [moved, ParticipantRecord.moved, MessageRecord.moved, NoteRecord.moved, FragmentRecord.moved,
    BoxRecord.moved, BlockSpan.moved, Function.comp_def]

/-- A participant is changed in the same way where all of them are others, with their names. -/
theorem View.alterParticipant_map {ps : List ParticipantRecord} {name : Text}
    {h g g' : ParticipantRecord → ParticipantRecord} (hname : ∀ p, (h p).name = p.name)
    (hnew : h { name } = { name }) (hg : ∀ p, g' (h p) = h (g p)) :
    alterParticipant name g' (ps.map h) = (alterParticipant name g ps).map h := by
  induction ps with
  | nil => rw [List.map_nil, alterParticipant, alterParticipant, List.map_singleton, ← hg, hnew]
  | cons p ps ih =>
    rw [List.map_cons, alterParticipant, alterParticipant, ih, hname]
    split
    · rw [List.map_cons, hg]
    · rw [List.map_cons]

theorem View.alterParticipant_moved {ps : List ParticipantRecord} {name : Text}
    {g g' : ParticipantRecord → ParticipantRecord} (h : ∀ p, g' (p.moved f) = (g p).moved f) :
    alterParticipant name g' (ps.map (·.moved f)) = (alterParticipant name g ps).map (·.moved f) :=
  alterParticipant_map (fun _ => rfl) rfl h

namespace Reader

/-- The reader with all lines of its view moved. -/
def moved (f : Nat → Nat) (r : Reader) : Reader :=
  ⟨r.view.moved f, r.openBlocks⟩

theorem closeAt_moved (f : Nat → Nat) (line : Nat) (v : View) (b : OpenBlock) :
    closeAt (f line) (v.moved f) b = (closeAt line v b).moved f := by
  cases b with
  | fragment i =>
    simp only [closeAt, View.moved]
    rw [map_modify (g := FragmentRecord.moved f)
      (k := fun b => { b with span := ⟨b.span.start, f line⟩ }) fun _ => rfl]
  | box i =>
    simp only [closeAt, View.moved]
    rw [map_modify (g := BoxRecord.moved f)
      (k := fun b => { b with span := ⟨b.span.start, f line⟩ }) fun _ => rfl]

/-- A statement does the same to the view wherever it stands. -/
theorem step_moved (f : Nat → Nat) (r : Reader) (line : Nat) (st : Statement) :
    (r.moved f).step (f line) st = (r.step line st).moved f := by
  have hid : ∀ p : ParticipantRecord, id (p.moved f) = (id p).moved f := fun _ => rfl
  cases st with
  | participant p =>
    have hdeclare : ∀ (box : Option Nat) (q : ParticipantRecord),
        (q.moved f).declare (f line) box p = (q.declare line box p).moved f := by
      intro box q
      cases hq : q.line <;> simp [ParticipantRecord.declare, ParticipantRecord.moved, hq]
    simp [step, moved, View.moved, View.alter, View.alterParticipant_moved (hdeclare _)]
  | message m =>
    simp [step, moved, View.moved, View.alter, View.alterParticipant_moved hid, MessageRecord.moved]
  | note n => simp [step, moved, View.moved, NoteRecord.moved]
  | autonumber =>
    cases hauto : r.view.autonumberLine <;> simp [step, moved, View.moved, hauto]
  | boxOpen header =>
    simp [step, moved, View.moved, BoxRecord.moved, BlockSpan.moved, BlockSpan.single]
  | fragmentOpen header =>
    simp [step, moved, View.moved, FragmentRecord.moved, BlockSpan.moved, BlockSpan.single]
  | blockEnd =>
    rw [step, step]
    cases hopen : r.openBlocks with
    | nil => simp [moved, hopen]
    | cons block outer => simp [moved, hopen, closeAt_moved]
  | separator label =>
    have hsection : ∀ b : FragmentRecord,
        FragmentRecord.moved f { b with sections := b.sections ++ [(line, label)] } =
          { b.moved f with sections := (b.moved f).sections ++ [(f line, label)] } := by
      simp [FragmentRecord.moved]
    rw [step, step]
    cases hopen : r.openBlocks with
    | nil => simp [moved, hopen]
    | cons block outer =>
      cases block with
      | box i => simp [moved, hopen]
      | fragment i =>
        simp only [moved, hopen, View.moved]
        rw [map_modify (g := FragmentRecord.moved f)
          (k := fun b => { b with sections := b.sections ++ [(f line, label)] }) hsection]
  | _ => rfl

theorem run_moved (f : Nat → Nat) (r : Reader) (sts : List (Nat × Statement)) :
    (r.moved f).run (sts.map fun p => (f p.1, p.2)) = (r.run sts).moved f := by
  induction sts generalizing r with
  | nil => rfl
  | cons p sts ih => rw [List.map_cons, run_cons, run_cons, ← ih, step_moved]

/-- Where no statement about blocks is left out or changed, the blocks move with their lines. -/
theorem outline_run_map_filter {keep : Nat → Bool} {change : Statement → Statement}
    (hgone : ∀ p ∈ sts, keep p.1 = false → p.2.isOnBlocks = false)
    (hchange : ∀ st, st.isOnBlocks = true → change st = st)
    (hchanged : ∀ st, st.isOnBlocks = false → (change st).isOnBlocks = false) (r : Reader) :
    ((r.moved f).run ((sts.filter fun p => keep p.1).map fun p => (f p.1, change p.2))).outline =
      ((r.run sts).moved f).outline := by
  rw [← run_moved]
  refine outline_run rfl ?_
  induction sts with
  | nil => rfl
  | cons p sts ih =>
    obtain ⟨hp, hsts⟩ := List.forall_mem_cons.1 hgone
    have ih := ih hsts
    cases hblock : p.2.isOnBlocks with
    | true =>
      have hkeep : keep p.1 = true := by
        by_contra hno
        rw [hp (Bool.eq_false_iff.2 hno)] at hblock
        cases hblock
      rw [List.filter_cons_of_pos (by exact hkeep), List.map_cons, List.map_cons,
        List.filter_cons_of_pos (by rw [hchange _ hblock]; exact hblock),
        List.filter_cons_of_pos (by exact hblock), ih, hchange _ hblock]
    | false =>
      have hmoved : ((p :: sts).map fun p => (f p.1, p.2)).filter (·.2.isOnBlocks) =
          (sts.map fun p => (f p.1, p.2)).filter (·.2.isOnBlocks) := by
        rw [List.map_cons, List.filter_cons_of_neg (by simp [hblock])]
      rw [hmoved]
      cases hkeep : keep p.1 with
      | true =>
        rw [List.filter_cons_of_pos (by exact hkeep), List.map_cons,
          List.filter_cons_of_neg (by simp [hchanged _ hblock]), ih]
      | false => rw [List.filter_cons_of_neg (by simp [hkeep]), ih]

end Reader

/-- Where no statement about blocks is left out or changed and no entry is unread, the fragments and
boxes are what they were, with their lines moved. -/
theorem View.blocks_of_statementsAt (keep : Nat → Bool) (change : Statement → Statement)
    (h : s.bodyIndex .sequence ≤ s'.bodyIndex .sequence)
    (hunread : ∀ text ∈ unreadLines .sequence s s', (Statement.ofLine text).isEntry = false)
    (hsts : statementsAt (s.bodyIndex .sequence) s' =
      ((statements s).filter fun p => keep p.1).map fun p => (f p.1, change p.2))
    (hgone : ∀ p ∈ statements s, keep p.1 = false → p.2.isOnBlocks = false)
    (hchange : ∀ st, st.isOnBlocks = true → change st = st)
    (hchanged : ∀ st, st.isOnBlocks = false → (change st).isOnBlocks = false) :
    (View.ofSource s').fragments = (View.ofSource s).fragments.map (·.moved f) ∧
      (View.ofSource s').boxes = (View.ofSource s).boxes.map (·.moved f) := by
  have hall := outline_statements (r := (Reader.start s).moved f) h hunread rfl
  rw [hsts, Reader.outline_run_map_filter hgone hchange hchanged] at hall
  have hstart : (Reader.start s').outline = ((Reader.start s).moved f).outline := rfl
  have houtline := (Reader.outline_run hstart rfl).trans hall
  obtain ⟨hfragments, hboxes, -⟩ := Reader.outline_eq_iff.1 houtline
  rw [View.ofSource_eq_run, View.ofSource_eq_run]
  exact ⟨hfragments, hboxes⟩

end DiagramEditor.Sequence
