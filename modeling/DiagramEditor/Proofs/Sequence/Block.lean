import DiagramEditor.Proofs.Sequence.View
import DiagramEditor.Proofs.Source.Nesting
import DiagramEditor.Proofs.Text.Words

/-!
# How fragments and boxes follow the blocks of the source

A sequence diagram is read with a stack of open fragments and boxes, and the blocks of its source are
found by the first word of a line alone. Both agree line by line (`Statement.blockStep_ofLine`): no
recognizer that is tried before the ones for headers and ends takes such a line. So the reader meets
the same blocks and has the same ones open (`Reader.Follows`).
-/

namespace DiagramEditor.Sequence

open Text Source

variable {r : Reader} {line index : Nat} {text : Text} {lines : List Text} {openers : List Nat}
  {closed : List BlockSpan} {st : Statement} {s : Source}

/-! ## Lines -/

/-- What the statement does to the nesting. -/
def Statement.blockStep : Statement → BlockStep
  | .boxOpen _ | .fragmentOpen _ => .enter
  | .blockEnd => .leave
  | _ => .stay

theorem firstWord_of_silent (h : isSilent (trim text) = true) : firstWord (trim text) = [] ∨
    (firstWord (trim text)).head? = some '%' := by
  by_cases hnil : trim text = []
  · exact .inl (by rw [hnil]; rfl)
  · obtain ⟨rest, htrim, hne, -⟩ := exists_firstWord_append hnil
    obtain ⟨c, w, hw⟩ := List.exists_cons_of_ne_nil hne
    rw [isSilent, List.isEmpty_eq_false_iff.2 hnil, Bool.false_or, startsWith,
      Option.isSome_iff_exists] at h
    obtain ⟨r, hr⟩ := h
    rw [stripFront?_eq_some, htrim, hw] at hr
    rw [hw, (List.cons.inj hr).1]
    exact .inr rfl

theorem firstWord_of_participant {p : Participant} (h : Participant.ofLine? text = some p) :
    firstWord (trim text) = ParticipantType.participant.name ∨
      firstWord (trim text) = ParticipantType.actor.name := by
  simp only [Participant.ofLine?, Option.bind_eq_bind, Option.bind_eq_some_iff,
    Option.guard_eq_some', Prod.exists] at h
  obtain ⟨keyword, rest, hkeyword, _, hspace, -⟩ := h
  have hrest := head?_of_startsWithSpace hspace
  rw [Participant.scanKeyword?] at hkeyword
  split at hkeyword
  · next rest' hfront =>
    obtain ⟨-, rfl⟩ := Prod.mk.inj (Option.some.inj hkeyword)
    rw [stripFront?_eq_some.1 hfront]
    exact .inl (firstWord_of_front (by decide) (fun _ => eq_false_of_any (by decide)) hrest)
  · obtain ⟨rest', hfront, heq⟩ := Option.map_eq_some_iff.1 hkeyword
    obtain ⟨-, rfl⟩ := Prod.mk.inj heq
    rw [stripFront?_eq_some.1 hfront]
    exact .inr (firstWord_of_front (by decide) (fun _ => eq_false_of_any (by decide)) hrest)

theorem boxHeader_isSome : (BoxHeader.ofLine? text).isSome = true ↔
    firstWord (trim text) = BoxHeader.keyword := by
  have hread : (BoxHeader.ofLine? text).isSome = true ↔ ∃ rest,
      trim text = BoxHeader.keyword ++ rest ∧ (rest = [] ∨ startsWithSpace rest = true) := by
    simp [BoxHeader.ofLine?, Option.isSome_iff_exists, Option.bind_eq_some_iff, stripFront?_eq_some]
  rw [hread]
  constructor
  · rintro ⟨rest, htrim, hrest⟩
    rw [htrim]
    refine firstWord_of_front (by decide) (fun _ => eq_false_of_any (by decide)) ?_
    rcases hrest with rfl | hspace
    exacts [fun c hc => absurd hc (by simp), head?_of_startsWithSpace hspace]
  · intro hword
    have hnil : trim text ≠ [] := by
      intro hnil
      rw [hnil] at hword
      exact absurd hword (by decide)
    obtain ⟨rest, htrim, -, hrest⟩ := exists_firstWord_append hnil
    refine ⟨rest, by rw [← hword]; exact htrim, ?_⟩
    cases rest with
    | nil => exact .inl rfl
    | cons c rest => exact .inr (hrest c rfl)

theorem fragmentHeader_isSome : (FragmentHeader.ofLine? text).isSome = true ↔
    firstWord (trim text) ∈ FragmentKind.all.map FragmentKind.keyword := by
  rw [FragmentHeader.ofLine?, Option.isSome_map, FragmentKind.ofKeyword?, List.find?_isSome,
    List.mem_map]
  simp

/-- The line opens a block exactly if one of the two header recognizers reads it. -/
theorem isBlockOpen_trim : isBlockOpen (trim text) = true ↔
    (BoxHeader.ofLine? text).isSome = true ∨ (FragmentHeader.ofLine? text).isSome = true := by
  rw [boxHeader_isSome, fragmentHeader_isSome, isBlockOpen, List.contains_iff_mem, blockWords,
    List.mem_append, List.mem_singleton, or_comm]

/-- A line with another first word neither opens nor closes a block. -/
theorem blockStep_of_firstWord (hword : firstWord (trim text) ∉ "end".toList :: blockWords) :
    Source.blockStep blockRules text = .stay := by
  rw [List.mem_cons, not_or] at hword
  refine blockStep_eq_stay ?_ ?_
  · simpa [blockRules, isBlockOpen] using hword.2
  · simp only [blockRules, isBlockEnd, decide_eq_false_iff_not]
    intro hend
    rw [hend] at hword
    exact hword.1 (by decide)

/-- The recognizers see a line open or close a block exactly if its first word does. -/
theorem Statement.blockStep_ofLine (text : Text) :
    (Statement.ofLine text).blockStep = Source.blockStep blockRules text := by
  have hstay : firstWord (trim text) ∉ "end".toList :: blockWords →
      BlockStep.stay = Source.blockStep blockRules text := fun hword =>
    (blockStep_of_firstWord hword).symm
  rw [Statement.ofLine]
  split
  · next hsilent =>
    refine hstay fun hmem => ?_
    rcases firstWord_of_silent hsilent with hword | hword
    · rw [hword] at hmem
      exact absurd hmem (by decide)
    · have hall : ("end".toList :: blockWords).all (·.head? ≠ some '%') = true := by decide
      simpa [hword] using List.all_eq_true.1 hall _ hmem
  split
  · next hauto =>
    rw [isAutonumber, decide_eq_true_eq] at hauto
    exact hstay (by rw [hauto]; decide)
  split
  · next p hp =>
    refine hstay ?_
    rcases firstWord_of_participant hp with hword | hword <;> rw [hword] <;> decide
  split
  · next h hbox =>
    exact (blockStep_eq_enter_iff.2 (isBlockOpen_trim.2 (.inl (by rw [hbox]; rfl)))).symm
  split
  · next h hfragment =>
    exact (blockStep_eq_enter_iff.2 (isBlockOpen_trim.2 (.inr (by rw [hfragment]; rfl)))).symm
  next hbox _ hfragment =>
  have hopen : isBlockOpen (trim text) = false := by
    rw [Bool.eq_false_iff, ne_eq, isBlockOpen_trim, hbox, hfragment]
    simp
  split
  · next hend => exact (blockStep_eq_leave_iff.2 ⟨hopen, hend⟩).symm
  · next hend =>
    refine Eq.trans ?_ (blockStep_eq_stay hopen (Bool.eq_false_iff.2 hend)).symm
    split
    · rfl
    split
    · rfl
    split <;> rfl

/-! ## The blocks of the reader -/

namespace View

variable {v : View} {b : OpenBlock}

/-- The spans of all fragments and boxes. -/
def spans (v : View) : List BlockSpan :=
  v.fragments.map (·.span) ++ v.boxes.map (·.span)

/-- The span of one block. -/
def span? (v : View) : OpenBlock → Option BlockSpan
  | .fragment i => (v.fragments.map (·.span))[i]?
  | .box i => (v.boxes.map (·.span))[i]?

theorem mem_spans {span : BlockSpan} : span ∈ v.spans ↔ ∃ b, v.span? b = some span := by
  rw [spans, List.mem_append, List.mem_iff_getElem?, List.mem_iff_getElem?]
  constructor
  · rintro (⟨i, hi⟩ | ⟨i, hi⟩)
    exacts [⟨.fragment i, hi⟩, ⟨.box i, hi⟩]
  · rintro ⟨b, hb⟩
    cases b with
    | fragment i => exact .inl ⟨i, hb⟩
    | box i => exact .inr ⟨i, hb⟩

theorem span?_inj {c : OpenBlock} {span : BlockSpan} (h : v.spans.Nodup)
    (hb : v.span? b = some span) (hc : v.span? c = some span) : b = c := by
  obtain ⟨hfragments, hboxes, hdisjoint⟩ := List.nodup_append.1 h
  cases b with
  | fragment i =>
    cases c with
    | fragment j =>
      have hi := (List.getElem?_eq_some_iff.1 hb).1
      exact congrArg _ ((List.getElem?_inj hi hfragments).1 (hb.trans hc.symm))
    | box j =>
      exact absurd rfl (hdisjoint _ (List.mem_of_getElem? hb) _ (List.mem_of_getElem? hc))
  | box i =>
    cases c with
    | fragment j =>
      exact absurd rfl (hdisjoint _ (List.mem_of_getElem? hc) _ (List.mem_of_getElem? hb))
    | box j =>
      have hi := (List.getElem?_eq_some_iff.1 hb).1
      exact congrArg _ ((List.getElem?_inj hi hboxes).1 (hb.trans hc.symm))

theorem map_span_fragments_closeAt (line : Nat) (v : View) (i : Nat) :
    (Reader.closeAt line v (.fragment i)).fragments.map (·.span) =
      (v.fragments.map (·.span)).modify i fun b => ⟨b.start, line⟩ :=
  map_modify (g := FragmentRecord.span) (k := fun b => ⟨b.start, line⟩) (fun _ => rfl) _ _

theorem map_span_boxes_closeAt (line : Nat) (v : View) (i : Nat) :
    (Reader.closeAt line v (.box i)).boxes.map (·.span) =
      (v.boxes.map (·.span)).modify i fun b => ⟨b.start, line⟩ :=
  map_modify (g := BoxRecord.span) (k := fun b => ⟨b.start, line⟩) (fun _ => rfl) _ _

theorem span?_closeAt_self {span : BlockSpan} (h : v.span? b = some span) :
    (Reader.closeAt line v b).span? b = some ⟨span.start, line⟩ := by
  cases b with
  | fragment i =>
    rw [span?] at h ⊢
    rw [map_span_fragments_closeAt, List.getElem?_modify_eq, h]
    rfl
  | box i =>
    rw [span?] at h ⊢
    rw [map_span_boxes_closeAt, List.getElem?_modify_eq, h]
    rfl

theorem span?_closeAt_of_ne {c : OpenBlock} (h : b ≠ c) :
    (Reader.closeAt line v b).span? c = v.span? c := by
  cases b with
  | fragment i =>
    cases c with
    | fragment j =>
      rw [span?, span?, map_span_fragments_closeAt, List.getElem?_modify_ne]
      exact fun heq => h (congrArg _ heq)
    | box j => rfl
  | box i =>
    cases c with
    | fragment j => rfl
    | box j =>
      rw [span?, span?, map_span_boxes_closeAt, List.getElem?_modify_ne]
      exact fun heq => h (congrArg _ heq)

theorem spans_closeAt {span : BlockSpan} (h : v.span? b = some span) : ∃ rest,
    v.spans.Perm (span :: rest) ∧ (Reader.closeAt line v b).spans.Perm (⟨span.start, line⟩ :: rest) := by
  cases b with
  | fragment i =>
    obtain ⟨rest, hrest, hmodify⟩ := BlockTable.perm_modify h fun b => (⟨b.start, line⟩ : BlockSpan)
    refine ⟨rest ++ v.boxes.map (·.span), hrest.append_right _, ?_⟩
    rw [spans, map_span_fragments_closeAt]
    exact hmodify.append_right _
  | box i =>
    obtain ⟨rest, hrest, hmodify⟩ := BlockTable.perm_modify h fun b => (⟨b.start, line⟩ : BlockSpan)
    refine ⟨v.fragments.map (·.span) ++ rest, ?_, ?_⟩
    · exact (hrest.append_left _).trans List.perm_middle
    · rw [spans, map_span_boxes_closeAt]
      exact (hmodify.append_left _).trans List.perm_middle

end View

namespace Reader

/-- A statement that neither opens nor closes a block leaves all blocks as they are. -/
theorem step_of_stay (h : st.blockStep = .stay) (r : Reader) (line : Nat) :
    (r.step line st).view.fragments.map (·.span) = r.view.fragments.map (·.span) ∧
      (r.step line st).view.boxes = r.view.boxes ∧ (r.step line st).openBlocks = r.openBlocks := by
  cases st with
  | separator label =>
    rw [step]
    split
    · exact ⟨map_modify_of_eq (g := FragmentRecord.span)
        (f := fun f => { f with sections := f.sections ++ [(line, label)] }) (fun _ => rfl) _ _,
        rfl, rfl⟩
    · exact ⟨rfl, rfl, rfl⟩
  | boxOpen header => cases h
  | fragmentOpen header => cases h
  | blockEnd => cases h
  | _ => exact ⟨rfl, rfl, rfl⟩

theorem span?_boxOpen {b : OpenBlock} {span : BlockSpan} {header : BoxHeader}
    (h : r.view.span? b = some span) :
    (r.step line (.boxOpen header)).view.span? b = some span := by
  cases b with
  | fragment i => exact h
  | box i => simpa [View.span?, step] using BlockTable.getElem?_append_of_eq_some h [.single line]

theorem span?_fragmentOpen {b : OpenBlock} {span : BlockSpan} {header : FragmentHeader}
    (h : r.view.span? b = some span) :
    (r.step line (.fragmentOpen header)).view.span? b = some span := by
  cases b with
  | fragment i => simpa [View.span?, step] using BlockTable.getElem?_append_of_eq_some h [.single line]
  | box i => exact h

/-- The blocks met so far. -/
def table (r : Reader) : BlockTable OpenBlock :=
  ⟨r.view.spans, r.view.span?, r.openBlocks⟩

/-- The reader has met the blocks `closed`, and it has the blocks open that begin on the lines
`openers`, the innermost first. -/
abbrev Follows (r : Reader) (closed : List BlockSpan) (openers : List Nat) : Prop :=
  r.table.Follows closed openers

namespace Follows

theorem step (h : r.Follows closed openers) (ho : openers.Pairwise (· > ·)) (line : Nat)
    (st : Statement) : (r.step line st).Follows (closed ++ st.blockStep.closed line openers)
      (st.blockStep.openersBehind line openers) := by
  cases hst : st.blockStep with
  | stay =>
    obtain ⟨hfragments, hboxes, hopen⟩ := step_of_stay hst r line
    have hspan : (r.step line st).view.span? = r.view.span? := by
      funext b
      cases b <;> simp only [View.span?, hfragments, hboxes]
    simp only [BlockStep.closed, List.append_nil]
    have htable : (r.step line st).table = r.table := by
      rw [table, table, hspan, hopen, View.spans, hfragments, hboxes]
      rfl
    rw [Follows, htable]
    exact h
  | enter =>
    simp only [BlockStep.closed, List.append_nil]
    cases st with
    | boxOpen header =>
      refine h.enter ?_ rfl ?_ fun c span => span?_boxOpen
      · simp [table, View.spans, Reader.step]
      · simp [table, View.span?, Reader.step]
    | fragmentOpen header =>
      refine h.enter ?_ rfl ?_ fun c span => span?_fragmentOpen
      · simp only [table, Reader.step, View.spans, List.map_append, List.append_assoc]
        exact List.perm_append_comm.append_left _
      · simp [table, View.span?, Reader.step]
    | _ => cases hst
  | leave =>
    cases st with
    | blockEnd =>
      rw [Reader.step]
      split
      · next hopen =>
        obtain rfl := h.eq_nil hopen
        rw [show BlockStep.leave.closed line [] = [] from rfl, List.append_nil]
        exact h
      · next b outer hopen =>
        exact h.leave (u := table ⟨closeAt line r.view b, outer⟩) ho hopen
          (fun span => View.spans_closeAt) fun c hc => View.span?_closeAt_of_ne hc
    | _ => cases hst

theorem readAll (h : r.Follows closed openers) (ho : (index :: openers).Pairwise (· > ·))
    (lines : List Text) : (r.readAll (numbered index lines)).Follows
      (closed ++ closedBlocks blockRules index openers lines)
      (openersAfter blockRules index openers lines) := by
  induction lines generalizing r index openers closed with
  | nil =>
    rw [closedBlocks, List.append_nil]
    exact h
  | cons text lines ih =>
    have hstep := h.step ho.of_cons index (.ofLine text)
    rw [Statement.blockStep_ofLine] at hstep
    rw [closedBlocks_cons, openersAfter, ← List.append_assoc]
    exact ih hstep (BlockStep.pairwise_openersBehind ho _)

end Follows

/-- Blocks keep the line that they begin on. -/
theorem start_readAll {b : OpenBlock} {span : BlockSpan} (h : r.view.span? b = some span)
    (lines : List (Nat × Text)) : ∃ span', (r.readAll lines).view.span? b = some span' ∧
      span'.start = span.start := by
  refine readAll_invariant (P := fun r => ∃ span', r.view.span? b = some span' ∧
    span'.start = span.start) ⟨span, h, rfl⟩ fun p _ r hr => ?_
  obtain ⟨span', hspan, hstart⟩ := hr
  generalize Statement.ofLine p.2 = st
  cases hst : st.blockStep with
  | stay =>
    obtain ⟨hfragments, hboxes, -⟩ := step_of_stay hst r p.1
    refine ⟨span', ?_, hstart⟩
    rw [← hspan]
    cases b <;> simp only [View.span?, hfragments, hboxes]
  | enter =>
    refine ⟨span', ?_, hstart⟩
    cases st with
    | boxOpen header => exact span?_boxOpen hspan
    | fragmentOpen header => exact span?_fragmentOpen hspan
    | _ => cases hst
  | leave =>
    cases st with
    | blockEnd =>
      rw [Reader.step]
      split
      · exact ⟨span', hspan, hstart⟩
      · next c outer _ =>
        by_cases hc : c = b
        · subst hc
          exact ⟨_, View.span?_closeAt_self hspan, hstart⟩
        · exact ⟨span', (View.span?_closeAt_of_ne hc).trans hspan, hstart⟩
    | _ => cases hst

end Reader

end DiagramEditor.Sequence
