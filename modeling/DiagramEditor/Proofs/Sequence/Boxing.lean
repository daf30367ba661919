import DiagramEditor.Proofs.Sequence.Insertion
import Mathlib.Data.List.Find
import Mathlib.Data.List.InsertIdx

/-!
# One more box

Where a whole box is put into a source, the boxes behind it get other numbers: each is one further
(`moveDown`), and so is the number that a participant in one of them has. Whatever is read behind the new
box is read in the same way with it and without it (`Reader.run_withBox`).

The participants that are declared on the lines of the box are in it (`Reader.declarations_box`); the
declarations behind it are in the boxes that they were in (`Reader.declarations_withBox`).
-/

namespace DiagramEditor

/-- A change behind a new entry is made one place further. -/
theorem modify_insertIdx {α : Type} {g : α → α} {l : List α} {b : α} {i k : Nat} (hk : k ≤ l.length) :
    (l.insertIdx k b).modify (Source.moveDown k 1 i) g = (l.modify i g).insertIdx k b := by
  induction l generalizing k i with
  | nil =>
    obtain rfl := Nat.le_zero.1 hk
    simp [Source.moveDown]
  | cons a l ih =>
    cases k with
    | zero => simp [Source.moveDown]
    | succ k =>
      cases i with
      | zero => simp [Source.moveDown]
      | succ i =>
        have hmove : Source.moveDown (k + 1) 1 (i + 1) = Source.moveDown k 1 i + 1 := by
          rw [Source.moveDown, Source.moveDown]
          split <;> split <;> omega
        rw [hmove, List.insertIdx_succ_cons, List.modify_succ_cons, List.modify_succ_cons,
          List.insertIdx_succ_cons, ih (Nat.le_of_succ_le_succ hk)]

namespace Sequence

open Text Source

variable {r r' : Reader} {line slot stop k i : Nat} {st : Statement} {sts : List (Nat × Statement)}
  {name : Text} {b : BoxRecord} {header : BoxHeader} {s s' : Source}

/-! ## Numbers of boxes -/

/-- The block behind a new box with number `k`. -/
def OpenBlock.behind (k : Nat) : OpenBlock → OpenBlock
  | fragment i => fragment i
  | box i => box (moveDown k 1 i)

/-- The participant behind a new box with number `k`. -/
def ParticipantRecord.behind (k : Nat) (p : ParticipantRecord) : ParticipantRecord :=
  { p with box := p.box.map (moveDown k 1) }

/-- The participant that is declared on this line of box number `k`. -/
def ParticipantRecord.inBox (k : Nat) (p : Nat × Participant) : ParticipantRecord :=
  ⟨p.2.name, p.2.label, p.2.type, some p.1, some k⟩

/-- The box behind a new one with number `k`. -/
def BoxRecord.behind (k : Nat) (b : BoxRecord) : BoxRecord :=
  { b with index := moveDown k 1 b.index }

/-- The view with one more box, the number of which is `k`. -/
def View.withBox (k : Nat) (b : BoxRecord) (v : View) : View :=
  { v with
    participants := v.participants.map (·.behind k)
    boxes := (v.boxes.map (·.behind k)).insertIdx k b }

/-- The colors and labels of the boxes. -/
theorem View.map_boxes_withBox (k : Nat) (b : BoxRecord) (f : Nat → Nat) (v : View) :
    ((v.moved f).withBox k b).boxes.map (fun b => (b.color, b.label)) =
      (v.boxes.map fun b => (b.color, b.label)).insertIdx k (b.color, b.label) := by
  rw [withBox, List.map_insertIdx, moved, List.map_map, List.map_map]
  rfl

namespace Reader

/-- The reader with one more box in its view. -/
def withBox (k : Nat) (b : BoxRecord) (r : Reader) : Reader :=
  ⟨r.view.withBox k b, r.openBlocks.map (·.behind k)⟩

theorem box?_withBox (k : Nat) (b : BoxRecord) (r : Reader) :
    (r.withBox k b).box? = r.box?.map (moveDown k 1) := by
  rw [box?, box?, withBox, List.findSome?_map, List.map_findSome?]
  congr 1
  funext c
  cases c <;> rfl

theorem closeAt_withBox {v : View} (hk : k ≤ v.boxes.length) (line : Nat) (c : OpenBlock) :
    closeAt line (v.withBox k b) (c.behind k) = (closeAt line v c).withBox k b := by
  cases c with
  | fragment i => rfl
  | box i =>
    simp only [closeAt, View.withBox, OpenBlock.behind]
    rw [modify_insertIdx (by rwa [List.length_map]), map_modify (g := BoxRecord.behind k)
      (k := fun b => { b with span := ⟨b.span.start, line⟩ }) fun _ => rfl]

/-- A statement does the same behind the new box. -/
theorem step_withBox (hk : k ≤ r.view.boxes.length) (line : Nat) (st : Statement) :
    (r.withBox k b).step line st = (r.step line st).withBox k b := by
  cases st with
  | participant d =>
    have hdeclare : ∀ q : ParticipantRecord, (q.behind k).declare line (r.withBox k b).box? d =
        (q.declare line r.box? d).behind k := by
      intro q
      rw [box?_withBox]
      cases hq : q.line <;> simp [ParticipantRecord.declare, ParticipantRecord.behind, hq]
    have hall : View.alterParticipant d.name (·.declare line (r.withBox k b).box? d)
        (r.view.participants.map (·.behind k)) =
          (View.alterParticipant d.name (·.declare line r.box? d) r.view.participants).map (·.behind k) :=
      View.alterParticipant_map (fun _ => rfl) rfl hdeclare
    exact congrArg (fun ps => (⟨{ (r.withBox k b).view with participants := ps }, _⟩ : Reader)) hall
  | message m =>
    have hid : ∀ q : ParticipantRecord, id (q.behind k) = (id q).behind k := fun _ => rfl
    simp only [step, withBox, View.withBox, View.alter]
    rw [View.alterParticipant_map (h := ParticipantRecord.behind k) (fun _ => rfl) rfl hid,
      View.alterParticipant_map (h := ParticipantRecord.behind k) (fun _ => rfl) rfl hid]
  | boxOpen header =>
    have hlength : (r.withBox k b).view.boxes.length = moveDown k 1 r.view.boxes.length := by
      rw [moveDown, if_neg (Nat.not_lt.2 hk), withBox, View.withBox,
        List.length_insertIdx_of_le_length (by rwa [List.length_map]), List.length_map]
    rw [step, hlength]
    simp only [step, withBox, View.withBox, List.map_append, List.map_cons, List.map_nil]
    rw [insertIdx_append (by rwa [List.length_map])]
    rfl
  | blockEnd =>
    rw [step, step]
    cases hopen : r.openBlocks with
    | nil => simp [withBox, hopen]
    | cons c outer => simp [withBox, hopen, closeAt_withBox hk]
  | separator label =>
    rw [step, step]
    cases hopen : r.openBlocks with
    | nil => simp [withBox, hopen]
    | cons c outer => cases c <;> simp [withBox, hopen, OpenBlock.behind, View.withBox]
  | _ => rfl

theorem length_boxes_le_step (r : Reader) (line : Nat) (st : Statement) :
    r.view.boxes.length ≤ (r.step line st).view.boxes.length :=
  (Nat.le_add_right _ _).trans_eq (length_boxes_run r [(line, st)]).symm

theorem run_withBox (hk : k ≤ r.view.boxes.length) (sts : List (Nat × Statement)) :
    (r.withBox k b).run sts = (r.run sts).withBox k b := by
  induction sts generalizing r with
  | nil => rfl
  | cons p sts ih =>
    rw [run_cons, run_cons, step_withBox hk, ih (hk.trans (length_boxes_le_step r p.1 p.2))]

theorem declarations_withBox (hk : k ≤ r.view.boxes.length) (sts : List (Nat × Statement)) :
    (r.withBox k b).declarations sts = (r.declarations sts).map (·.behind k) := by
  induction sts generalizing r with
  | nil => rfl
  | cons p sts ih =>
    rw [declarations, declarations, List.map_append, step_withBox hk,
      ih (hk.trans (length_boxes_le_step r p.1 p.2))]
    congr 1
    cases p.2.participant? with
    | none => rfl
    | some d =>
      rw [Option.map_some, Option.map_some, Option.toList_some, Option.toList_some, List.map_singleton,
        declared, declared, box?_withBox]
      rfl

/-! ## The boxes that are there -/

/-- Whatever goes by the number of a box goes by one that is there. -/
structure CountsBoxes (r : Reader) : Prop where
  openBlocks : ∀ c ∈ r.openBlocks, ∀ i ∈ c.box?, i < r.view.boxes.length
  boxes : ∀ b ∈ r.view.boxes, b.index < r.view.boxes.length

namespace CountsBoxes

variable (h : r.CountsBoxes)

include h

theorem step (line : Nat) (st : Statement) : (r.step line st).CountsBoxes := by
  cases st with
  | boxOpen header =>
    have hlength : (r.step line (.boxOpen header)).view.boxes.length = r.view.boxes.length + 1 :=
      List.length_append
    constructor
    · rw [hlength]
      intro c hc i hi
      rcases List.mem_cons.1 hc with rfl | hc
      · cases hi
        exact Nat.lt_succ_self _
      · exact Nat.lt_succ_of_lt (h.openBlocks c hc i hi)
    · rw [hlength]
      intro b hb
      rcases List.mem_append.1 hb with hb | hb
      · exact Nat.lt_succ_of_lt (h.boxes b hb)
      · rw [List.mem_singleton.1 hb]
        exact Nat.lt_succ_self _
  | fragmentOpen header =>
    refine ⟨fun c hc i hi => ?_, h.boxes⟩
    rcases List.mem_cons.1 hc with rfl | hc
    · cases hi
    · exact h.openBlocks c hc i hi
  | blockEnd =>
    rw [Reader.step]
    cases hopen : r.openBlocks with
    | nil => exact h
    | cons c outer =>
      have houter : ∀ c ∈ outer, ∀ i ∈ c.box?, i < r.view.boxes.length := fun c hc =>
        h.openBlocks c (hopen ▸ List.mem_cons_of_mem _ hc)
      cases c with
      | fragment i => exact ⟨houter, h.boxes⟩
      | box i =>
        have hlength : (closeAt line r.view (.box i)).boxes.length = r.view.boxes.length :=
          List.length_modify ..
        have hindex : ∀ b ∈ (closeAt line r.view (.box i)).boxes, b.index < r.view.boxes.length :=
          forall_mem_modify i h.boxes fun _ hb => hb
        exact ⟨fun c hc i hi => hlength ▸ houter c hc i hi, fun b hb => hlength ▸ hindex b hb⟩
  | separator label =>
    rw [Reader.step]
    split
    · exact ⟨h.openBlocks, h.boxes⟩
    · exact h
  | _ => exact ⟨h.openBlocks, h.boxes⟩

theorem run (sts : List (Nat × Statement)) : (r.run sts).CountsBoxes := by
  induction sts generalizing r with
  | nil => exact h
  | cons p sts ih => exact ih (h.step p.1 p.2)

/-- A declaration is in a box that is there. -/
theorem declarations_lt {d : ParticipantRecord} (hd : d ∈ r.declarations sts) :
    ∀ i ∈ d.box, i < (r.run sts).view.boxes.length := by
  induction sts generalizing r with
  | nil => cases hd
  | cons p sts ih =>
    rw [declarations] at hd
    rcases List.mem_append.1 hd with hd | hd
    · intro i hi
      obtain ⟨q, -, rfl⟩ := Option.map_eq_some_iff.1 (Option.mem_toList.1 hd)
      obtain ⟨c, hc, hi⟩ := List.exists_of_findSome?_eq_some hi
      rw [length_boxes_run]
      exact Nat.lt_add_right _ (h.openBlocks c hc i hi)
    · exact ih (h.step p.1 p.2) hd

/-- A new box behind all others changes no number. -/
theorem outline_withBox (b : BoxRecord) : (r.withBox r.view.boxes.length b).outline =
    (r.view.fragments, r.view.boxes ++ [b], r.openBlocks) := by
  have hopen : r.openBlocks.map (·.behind r.view.boxes.length) = r.openBlocks := by
    refine (List.map_congr_left fun c hc => ?_).trans (List.map_id _)
    cases c with
    | fragment i => rfl
    | box i => exact congrArg OpenBlock.box (moveDown_of_lt (h.openBlocks _ hc i rfl) 1)
  have hboxes : r.view.boxes.map (·.behind r.view.boxes.length) = r.view.boxes := by
    refine (List.map_congr_left fun c hc => ?_).trans (List.map_id _)
    rw [BoxRecord.behind, moveDown_of_lt (h.boxes c hc)]
    rfl
  rw [outline, withBox, View.withBox, hopen, hboxes, List.insertIdx_length_self]

end CountsBoxes

theorem countsBoxes_start (s : Source) : (start s).CountsBoxes :=
  ⟨nofun, nofun⟩

end Reader

/-! ## A whole box -/

/-- The statements of a box. -/
def boxStatements (slot stop : Nat) (header : BoxHeader) (sts : List (Nat × Statement)) :
    List (Nat × Statement) :=
  (slot, .boxOpen header) :: sts ++ [(stop, .blockEnd)]

theorem filter_boxStatements (hinner : ∀ p ∈ sts, p.2.isOnBlocks = false) :
    (boxStatements slot stop header sts).filter (·.2.isOnBlocks) =
      [(slot, .boxOpen header), (stop, .blockEnd)] := by
  have hnone : sts.filter (·.2.isOnBlocks) = [] :=
    List.filter_eq_nil_iff.2 fun p hp => by simp [hinner p hp]
  rw [boxStatements, List.cons_append, List.filter_cons_of_pos rfl, List.filter_append, hnone]
  rfl

namespace Reader

/-- A whole box is one more box, and the same blocks are open behind it as in front. -/
theorem outline_run_box (h : r.CountsBoxes) (hinner : ∀ p ∈ sts, p.2.isOnBlocks = false) :
    (r.run (boxStatements slot stop header sts)).outline =
      (r.withBox r.view.boxes.length
        ⟨r.view.boxes.length, header.color, header.label, ⟨slot, stop⟩⟩).outline := by
  have hrun : (r.run [(slot, .boxOpen header), (stop, .blockEnd)]).outline = (r.view.fragments,
      r.view.boxes ++ [⟨r.view.boxes.length, header.color, header.label, ⟨slot, stop⟩⟩],
      r.openBlocks) :=
    congrArg (fun boxes => (r.view.fragments, boxes, r.openBlocks)) (modify_append_cons ..)
  rw [h.outline_withBox, ← hrun]
  refine outline_run rfl ?_
  rw [filter_boxStatements hinner]
  rfl

theorem declarations_eq_said (h : ∀ p ∈ sts, p.2.isOnBlocks = false) (r : Reader) :
    r.declarations sts = (said Statement.participant? sts).map fun p => r.declared p.1 p.2 := by
  induction sts generalizing r with
  | nil => rfl
  | cons p sts ih =>
    obtain ⟨hp, hsts⟩ := List.forall_mem_cons.1 h
    have hdeclared : (r.step p.1 p.2).declarations sts = r.declarations sts :=
      declarations_congr (outline_step_of_not hp r p.1) sts
    rw [declarations, hdeclared, ih hsts, said_cons, List.map_append]
    cases p.2.participant? <;> rfl

/-- What is declared on the lines of the box is in the box. -/
theorem declarations_box (hinner : ∀ p ∈ sts, p.2.isOnBlocks = false) :
    r.declarations (boxStatements slot stop header sts) =
      (said Statement.participant? sts).map (ParticipantRecord.inBox r.view.boxes.length) := by
  have hend : ∀ r' : Reader, r'.declarations [(stop, .blockEnd)] = [] := fun _ => rfl
  rw [boxStatements, List.cons_append, declarations, declarations_append, declarations_eq_said hinner,
    hend, List.append_nil]
  rfl

theorem outline_withBox_congr (h : r.outline = r'.outline) (k : Nat) (b : BoxRecord) :
    (r.withBox k b).outline = (r'.withBox k b).outline := by
  obtain ⟨hfragments, hboxes, hopen⟩ := outline_eq_iff.1 h
  simp only [outline_eq_iff, withBox, View.withBox, hfragments, hboxes, hopen, and_self]

end Reader

/-! ## Sources with a new box -/

section Inner

variable {ds : List Participant} {inner : List (Nat × Statement)}
  (hinner : inner.map Prod.snd = ds.map .participant)

include hinner

theorem exists_of_mem_inner {p : Nat × Statement} (hp : p ∈ inner) : ∃ d ∈ ds, p.2 = .participant d := by
  have hmem := List.mem_map_of_mem (f := Prod.snd) hp
  rw [hinner] at hmem
  obtain ⟨d, hd, heq⟩ := List.mem_map.1 hmem
  exact ⟨d, hd, heq.symm⟩

theorem isOnBlocks_of_inner : ∀ p ∈ inner, p.2.isOnBlocks = false := by
  intro p hp
  obtain ⟨d, -, hd⟩ := exists_of_mem_inner hinner hp
  rw [hd]
  rfl

theorem map_snd_inner : (said Statement.participant? inner).map Prod.snd = ds := by
  rw [map_snd_said, hinner, List.filterMap_map]
  exact List.filterMap_some

end Inner

/-- The second source is the first one with a box put in at a place. Of the lines behind this place, those
are left out that declare a participant of the box. -/
structure IsBoxed (s s' : Source) (keep : Nat → Bool) (k : Nat) (header : BoxHeader)
    (ds : List Participant) : Prop where
  declaration : s'.declarationOf? .sequence = s.declarationOf? .sequence
  le : s.bodyIndex .sequence + k ≤ s.lines.length
  front : ∀ i < s.bodyIndex .sequence + k, keep i = true
  lines : ∃ opener texts closer, Statement.ofLine opener = .boxOpen header ∧
    texts.map Statement.ofLine = ds.map .participant ∧ Statement.ofLine closer = .blockEnd ∧
    s'.lines = s.lines.take (s.bodyIndex .sequence + k) ++ (opener :: texts ++ [closer]) ++
      (((numbered 0 s.lines).filter fun p => keep p.1).map Prod.snd).drop (s.bodyIndex .sequence + k)
  gone : ∀ p ∈ statements s, keep p.1 = false → ∃ d, p.2 = .participant d ∧ d.name ∈ ds.map (·.name)
  fresh : ∀ line d, (line, .participant d) ∈ statementsBefore s k → d.name ∉ ds.map (·.name)

/-- Where a line goes when a box with `count` participants is put in and some lines behind it are left
out. -/
def boxedLine (s : Source) (keep : Nat → Bool) (k count i : Nat) : Nat :=
  moveDown (s.bodyIndex .sequence + k) (count + 2) (rank keep i)

/-- The box with this header, as the view has it. -/
def newBox (s : Source) (k count : Nat) (header : BoxHeader) : BoxRecord :=
  ⟨(readerAt s k).view.boxes.length, header.color, header.label,
    ⟨s.bodyIndex .sequence + k, s.bodyIndex .sequence + k + count + 1⟩⟩

namespace IsBoxed

variable {keep : Nat → Bool} {ds : List Participant} (h : IsBoxed s s' keep k header ds)

include h

theorem boxedLine_of_lt (hi : i < s.bodyIndex .sequence + k) (count : Nat) :
    boxedLine s keep k count i = i := by
  have hrank : rank keep i = i := rank_of_forall fun j hj => h.front j (hj.trans hi)
  rw [boxedLine, hrank, moveDown_of_lt hi]

theorem statements_eq : statements s = statementsBefore s k ++ statementsAt (s.bodyIndex .sequence + k) s :=
  statements_eq_append h.le

theorem exists_statements : ∃ inner : List (Nat × Statement),
    inner.map Prod.snd = ds.map .participant ∧ statements s' = statementsBefore s k ++
      (boxStatements (s.bodyIndex .sequence + k) (s.bodyIndex .sequence + k + ds.length + 1) header inner ++
        ((statementsAt (s.bodyIndex .sequence + k) s).filter fun p => keep p.1).map fun p =>
          (boxedLine s keep k ds.length p.1, p.2)) := by
  obtain ⟨opener, texts, closer, hopener, htexts, hcloser, hlines⟩ := h.lines
  generalize hslot : s.bodyIndex .sequence + k = slot at hlines ⊢
  have hlength : texts.length = ds.length := by
    rw [← List.length_map (f := Statement.ofLine), htexts, List.length_map]
  refine ⟨statementsFrom (slot + 1) texts, ?_, ?_⟩
  · rw [← htexts, ← map_snd_numbered (slot + 1) texts, statementsFrom, List.map_map, List.map_map,
      map_snd_numbered]
    rfl
  · have hblock : statementsFrom slot (opener :: texts ++ [closer]) =
        boxStatements slot (slot + ds.length + 1) header (statementsFrom (slot + 1) texts) := by
      have hopened : statementsFrom slot [opener] = [(slot, .boxOpen header)] := by
        rw [← hopener]
        rfl
      have hclosed : statementsFrom (slot + (opener :: texts).length) [closer] =
          [(slot + ds.length + 1, .blockEnd)] := by
        rw [← hcloser, List.length_cons, hlength, ← Nat.add_assoc]
        rfl
      rw [statementsFrom_append, hclosed, ← List.singleton_append, statementsFrom_append, hopened]
      rfl
    have hrest : statementsFrom (slot + (opener :: texts ++ [closer]).length)
        ((((numbered 0 s.lines).filter fun p => keep p.1).map Prod.snd).drop slot) =
          ((statementsAt slot s).filter fun p => keep p.1).map fun p =>
            (boxedLine s keep k ds.length p.1, p.2) := by
      have hcount : (opener :: texts ++ [closer]).length = ds.length + 2 := by simp [hlength]
      rw [hcount, statementsFrom_moveDown, statementsFrom,
        numbered_drop_map_filter (hslot ▸ h.front) (hslot ▸ h.le), statementsAt, statementsFrom,
        List.filter_map, List.map_map, List.map_map, List.map_map, ← hslot]
      rfl
    rw [statements_put h.declaration h.le (hslot ▸ hlines), hslot, hblock, hrest]

theorem isOnBlocks_of_gone {p : Nat × Statement} (hp : p ∈ statements s) (hkeep : keep p.1 = false) :
    p.2.isOnBlocks = false := by
  obtain ⟨d, hd, -⟩ := h.gone p hp hkeep
  rw [hd]
  rfl

theorem statements_back {p : Nat × Statement} (hp : p ∈ statementsAt (s.bodyIndex .sequence + k) s) :
    p ∈ statements s := by
  rw [h.statements_eq]
  exact List.mem_append_right _ hp

/-- All lines that are kept, moved, are what is said around the box. -/
theorem map_filter_statements : ((statements s).filter fun p => keep p.1).map (fun p =>
    (boxedLine s keep k ds.length p.1, p.2)) =
      statementsBefore s k ++ ((statementsAt (s.bodyIndex .sequence + k) s).filter fun p => keep p.1).map
        fun p => (boxedLine s keep k ds.length p.1, p.2) := by
  have hkept : ∀ p ∈ statementsBefore s k, keep p.1 = true := fun p hp =>
    h.front p.1 (lt_of_mem_statementsBefore hp)
  rw [h.statements_eq, List.filter_append, List.filter_eq_self.2 hkept, List.map_append,
    map_statementsBefore fun i hi => h.boxedLine_of_lt hi _]

/-- Neither messages nor notes are said in the box or on the lines that are left out. -/
theorem said_statements {α : Type} (part : Statement → Option α) (hopen : part (.boxOpen header) = none)
    (hdeclared : ∀ d, part (.participant d) = none) (hend : part .blockEnd = none) :
    said part (statements s') = (said part (statements s)).map fun p =>
      (boxedLine s keep k ds.length p.1, p.2) := by
  obtain ⟨inner, hinner, hsts⟩ := h.exists_statements
  have hnone : said part (boxStatements (s.bodyIndex .sequence + k)
      (s.bodyIndex .sequence + k + ds.length + 1) header inner) = [] := by
    refine said_eq_nil fun p hp => ?_
    rcases List.mem_append.1 hp with hp | hp
    · rcases List.mem_cons.1 hp with rfl | hp
      · exact hopen
      · obtain ⟨d, -, hd⟩ := exists_of_mem_inner hinner hp
        rw [hd]
        exact hdeclared d
    · rw [List.mem_singleton.1 hp]
      exact hend
  have hkept : ∀ p ∈ said part (statements s), keep p.1 = true := by
    intro p hp
    obtain ⟨st, hst, hpart⟩ := mem_said.1 hp
    by_contra hkeep
    obtain ⟨d, rfl, -⟩ := h.gone _ hst (Bool.eq_false_iff.2 hkeep)
    rw [hdeclared] at hpart
    cases hpart
  have hall : said part (((statements s).filter fun p => keep p.1).map fun p =>
      (boxedLine s keep k ds.length p.1, p.2)) = ((said part (statements s)).filter fun p => keep p.1).map
        fun p => (boxedLine s keep k ds.length p.1, p.2) :=
    said_map_filter keep id id fun _ _ _ => Option.map_id_apply.symm
  rw [hsts, said_append, said_append, hnone, List.nil_append, ← said_append, ← h.map_filter_statements]
  rw [hall, List.filter_eq_self.2 hkept]

theorem messages : (View.ofSource s').messages = (View.ofSource s).messages.map
    (·.moved (boxedLine s keep k ds.length)) := by
  rw [View.messages_ofSource, View.messages_ofSource,
    h.said_statements Statement.message? rfl (fun _ => rfl) rfl]
  exact mapIdx_map (g := MessageRecord.moved _) (fun _ _ => rfl) _

theorem notes : (View.ofSource s').notes = (View.ofSource s).notes.map
    (·.moved (boxedLine s keep k ds.length)) := by
  rw [View.notes_ofSource, View.notes_ofSource,
    h.said_statements Statement.note? rfl (fun _ => rfl) rfl]
  exact mapIdx_map (g := NoteRecord.moved _) (fun _ _ => rfl) _

theorem start_eq : Reader.start s' = Reader.start s := by
  rw [Reader.start, Reader.start, h.declaration]

theorem readerAt_moved : (readerAt s k).moved (boxedLine s keep k ds.length) = readerAt s k :=
  moved_readerAt fun _ hi => h.boxedLine_of_lt hi _

theorem run_statements : (Reader.start s).run (statements s) =
    (readerAt s k).run (statementsAt (s.bodyIndex .sequence + k) s) := by
  rw [h.statements_eq, Reader.run_append, ← readerAt_eq_run]

omit h in
theorem countsBoxes_readerAt (s : Source) (k : Nat) : (readerAt s k).CountsBoxes := by
  rw [readerAt_eq_run]
  exact (Reader.countsBoxes_start s).run _

/-- The fragments are what they were, and there is one more box. -/
theorem blocks : (View.ofSource s').fragments =
      ((View.ofSource s).moved (boxedLine s keep k ds.length)).fragments ∧
    (View.ofSource s').boxes = (((View.ofSource s).moved (boxedLine s keep k ds.length)).withBox
      (readerAt s k).view.boxes.length (newBox s k ds.length header)).boxes := by
  obtain ⟨inner, hinner, hsts⟩ := h.exists_statements
  have hback : ((readerAt s k).run (((statementsAt (s.bodyIndex .sequence + k) s).filter
      fun p => keep p.1).map fun p => (boxedLine s keep k ds.length p.1, p.2))).outline =
        (((Reader.start s).run (statements s)).moved (boxedLine s keep k ds.length)).outline := by
    rw [h.run_statements]
    conv_lhs => rw [← h.readerAt_moved]
    exact Reader.outline_run_map_filter (fun p hp => h.isOnBlocks_of_gone (h.statements_back hp))
      (fun st _ => (rfl : id st = st)) (fun _ => id) _
  have hall : ((Reader.start s').run (statements s')).outline =
      ((((Reader.start s).run (statements s)).moved (boxedLine s keep k ds.length)).withBox
        (readerAt s k).view.boxes.length (newBox s k ds.length header)).outline := by
    rw [h.start_eq, hsts, Reader.run_append, Reader.run_append, ← readerAt_eq_run,
      Reader.outline_run (Reader.outline_run_box (countsBoxes_readerAt s k) (isOnBlocks_of_inner hinner)) rfl,
      Reader.run_withBox (Nat.le_refl _)]
    exact Reader.outline_withBox_congr hback _ _
  obtain ⟨hfragments, hboxes, -⟩ := Reader.outline_eq_iff.1 hall
  rw [View.ofSource_eq_run, View.ofSource_eq_run]
  exact ⟨hfragments, hboxes⟩

/-! ### Participants -/

theorem exists_declarations : ∃ inner : List (Nat × Statement),
    inner.map Prod.snd = ds.map .participant ∧ declarations s' =
      (Reader.start s).declarations (statementsBefore s k) ++
        ((said Statement.participant? inner).map (ParticipantRecord.inBox (readerAt s k).view.boxes.length) ++
          ((((readerAt s k).declarations (statementsAt (s.bodyIndex .sequence + k) s)).filter
            fun d => d.line.all keep).map (·.moved (boxedLine s keep k ds.length))).map
              (·.behind (readerAt s k).view.boxes.length)) := by
  obtain ⟨inner, hinner, hsts⟩ := h.exists_statements
  have hblocks := isOnBlocks_of_inner hinner
  have hback : (readerAt s k).declarations (((statementsAt (s.bodyIndex .sequence + k) s).filter
      fun p => keep p.1).map fun p => (boxedLine s keep k ds.length p.1, p.2)) =
        (((readerAt s k).declarations (statementsAt (s.bodyIndex .sequence + k) s)).filter
            fun d => d.line.all keep).map (·.moved (boxedLine s keep k ds.length)) := by
    conv_lhs => rw [← h.readerAt_moved]
    rw [Reader.declarations_moved, Reader.declarations_filter fun p hp =>
      h.isOnBlocks_of_gone (h.statements_back hp)]
  refine ⟨inner, hinner, ?_⟩
  rw [declarations, h.start_eq, hsts, Reader.declarations_append, Reader.declarations_append,
    Reader.declarations_box hblocks, ← readerAt_eq_run,
    Reader.declarations_congr (Reader.outline_run_box (countsBoxes_readerAt s k) hblocks),
    Reader.declarations_withBox (Nat.le_refl _), hback]

/-- Nothing in front of the box declares one of its participants. -/
theorem name_notMem_of_front {d : ParticipantRecord}
    (hd : d ∈ (Reader.start s).declarations (statementsBefore s k)) : d.name ∉ ds.map (·.name) := by
  obtain ⟨line, p, hmem, -, hname, -⟩ := Reader.mem_declarations hd
  exact hname ▸ h.fresh line p hmem

/-- A participant that the box declares is in it. -/
theorem participant?_of_mem (hnodup : (ds.map (·.name)).Nodup) {d : Participant} (hd : d ∈ ds) :
    ∃ line, (View.ofSource s').participant? d.name =
      some (.inBox (readerAt s k).view.boxes.length (line, d)) := by
  obtain ⟨inner, hinner, hdeclarations⟩ := h.exists_declarations
  have hsnd := map_snd_inner hinner
  have hmem : d ∈ (said Statement.participant? inner).map Prod.snd := by rwa [hsnd]
  obtain ⟨p, hp, rfl⟩ := List.mem_map.1 hmem
  refine ⟨p.1, ?_⟩
  have hfront : ((Reader.start s).declarations (statementsBefore s k)).find? (·.name = p.2.name) =
      none := by
    refine List.find?_eq_none.2 fun q hq => ?_
    have hno := h.name_notMem_of_front hq
    rw [decide_eq_true_eq]
    exact fun heq => hno (heq ▸ List.mem_map_of_mem hd)
  have hdistinct : (((said Statement.participant? inner).map
      (ParticipantRecord.inBox (readerAt s k).view.boxes.length)).map ParticipantRecord.name).Nodup := by
    rw [← hsnd, List.map_map] at hnodup
    rw [List.map_map]
    exact hnodup
  have hinside : ((said Statement.participant? inner).map
      (ParticipantRecord.inBox (readerAt s k).view.boxes.length)).find? (·.name = p.2.name) =
        some (ParticipantRecord.inBox (readerAt s k).view.boxes.length p) :=
    find?_of_nodup hdistinct (List.mem_map_of_mem hp)
  rw [View.participant?_ofSource, hdeclarations, List.find?_append, hfront, Option.none_or,
    List.find?_append, hinside]
  rfl

/-- What is declared in front of the box stays as it is. -/
theorem map_front : ((Reader.start s).declarations (statementsBefore s k)).map (fun d =>
    (d.moved (boxedLine s keep k ds.length)).behind (readerAt s k).view.boxes.length) =
      (Reader.start s).declarations (statementsBefore s k) := by
  refine (List.map_congr_left fun d hd => ?_).trans (List.map_id _)
  obtain ⟨line, p, hmem, hline, -⟩ := Reader.mem_declarations hd
  have hmoved : d.line.map (boxedLine s keep k ds.length) = d.line := by
    rw [hline, Option.map_some, h.boxedLine_of_lt (lt_of_mem_statementsBefore hmem)]
  have hbox : d.box.map (moveDown (readerAt s k).view.boxes.length 1) = d.box := by
    cases hd' : d.box with
    | none => rfl
    | some i =>
      have hlt := (Reader.countsBoxes_start s).declarations_lt hd i hd'
      rw [← readerAt_eq_run] at hlt
      rw [Option.map_some, moveDown_of_lt hlt]
  rw [ParticipantRecord.behind, ParticipantRecord.moved, hmoved, hbox]
  rfl

theorem mem_namesOf_iff (hname : name ∉ ds.map (·.name)) :
    name ∈ namesOf (statements s') ↔ name ∈ namesOf (statements s) := by
  obtain ⟨inner, hinner, hsts⟩ := h.exists_statements
  have hbox : name ∉ namesOf (boxStatements (s.bodyIndex .sequence + k)
      (s.bodyIndex .sequence + k + ds.length + 1) header inner) := by
    intro hmem
    obtain ⟨p, hp, hin⟩ := List.mem_flatMap.1 hmem
    rcases List.mem_append.1 hp with hp | hp
    · rcases List.mem_cons.1 hp with rfl | hp
      · cases hin
      · obtain ⟨d, hd, heq⟩ := exists_of_mem_inner hinner hp
        rw [heq] at hin
        exact hname (List.mem_singleton.1 hin ▸ List.mem_map_of_mem hd)
    · rw [List.mem_singleton.1 hp] at hin
      cases hin
  have hkept : name ∈ namesOf (((statements s).filter fun p => keep p.1).map fun p =>
      (boxedLine s keep k ds.length p.1, p.2)) ↔ name ∈ namesOf (statements s) := by
    simp only [namesOf, List.flatMap_map, List.mem_flatMap, List.mem_filter]
    constructor
    · rintro ⟨p, ⟨hp, -⟩, hin⟩
      exact ⟨p, hp, hin⟩
    · rintro ⟨p, hp, hin⟩
      refine ⟨p, ⟨hp, ?_⟩, hin⟩
      by_contra hkeep
      obtain ⟨d, hd, hmem⟩ := h.gone p hp (Bool.eq_false_iff.2 hkeep)
      rw [hd] at hin
      exact hname (List.mem_singleton.1 hin ▸ hmem)
  rw [← hkept, h.map_filter_statements, hsts, namesOf_append, namesOf_append, namesOf_append,
    List.mem_append, List.mem_append, List.mem_append, or_iff_right hbox]

/-- Any other participant is where it was. -/
theorem participant?_of_notMem (hname : name ∉ ds.map (·.name)) :
    (View.ofSource s').participant? name = ((View.ofSource s).participant? name).map fun p =>
      (p.moved (boxedLine s keep k ds.length)).behind (readerAt s k).view.boxes.length := by
  obtain ⟨inner, hinner, hdeclarations⟩ := h.exists_declarations
  have hsnd := map_snd_inner hinner
  have hinside : ((said Statement.participant? inner).map
      (ParticipantRecord.inBox (readerAt s k).view.boxes.length)).find? (·.name = name) = none := by
    refine List.find?_eq_none.2 fun q hq => ?_
    obtain ⟨p, hp, rfl⟩ := List.mem_map.1 hq
    rw [decide_eq_true_eq]
    rintro rfl
    exact hname (List.mem_map_of_mem (hsnd ▸ List.mem_map_of_mem hp))
  -- No declaration with this name is left out.
  have hkept : (((readerAt s k).declarations (statementsAt (s.bodyIndex .sequence + k) s)).filter
      fun d => d.line.all keep).find? (·.name = name) =
        ((readerAt s k).declarations (statementsAt (s.bodyIndex .sequence + k) s)).find? (·.name = name) := by
    rw [List.find?_filter]
    refine List.find?_congr fun d hd => decide_eq_decide.2 ?_
    rw [decide_eq_true_eq]
    refine and_iff_right_of_imp fun heq' => ?_
    obtain ⟨line, p, hmem, hline, heq, -⟩ := Reader.mem_declarations hd
    rw [hline, Option.all_some]
    by_contra hkeep
    obtain ⟨q, hq, hin⟩ := h.gone _ (h.statements_back hmem) (Bool.eq_false_iff.2 hkeep)
    obtain rfl := Statement.participant.inj hq
    exact hname (heq' ▸ heq ▸ hin)
  have hfind : (declarations s').find? (·.name = name) =
      ((declarations s).find? (·.name = name)).map fun p =>
        (p.moved (boxedLine s keep k ds.length)).behind (readerAt s k).view.boxes.length := by
    rw [hdeclarations, declarations_eq_append h.le, List.find?_append, List.find?_append,
      List.find?_append, hinside, Option.none_or, List.map_map, List.find?_map]
    conv_lhs => rw [← h.map_front, List.find?_map]
    rw [Option.map_or]
    exact congrArg _ (congrArg _ hkept)
  rw [View.participant?_ofSource, View.participant?_ofSource, hfind, Option.map_or]
  congr 1
  simp only [List.contains_iff_mem, h.mem_namesOf_iff hname]
  split <;> rfl

end IsBoxed

end Sequence

end DiagramEditor
