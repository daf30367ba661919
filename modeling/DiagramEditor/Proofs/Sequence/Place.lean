import DiagramEditor.Proofs.Sequence.Block
import DiagramEditor.Proofs.Source.Declaration

/-!
# Fragments and boxes are the blocks of the source

A section goes to the innermost block that is open on its line if that is a fragment, and a declared
participant to the innermost box among the open ones (`View.IsPlaced`). As the reader has the blocks
open that the source has open there, and as those are the blocks around the line, the view shows
where sections and participants stand (`View.blocksAgree_ofSource`).
-/

namespace DiagramEditor.Sequence

open Text Source

variable {r : Reader} {line index : Nat} {lines : List Text} {st : Statement} {s : Source}

/-! ## Sections and declarations -/

/-- The box is the innermost one of the blocks that are open on the line. -/
def BoxAt (At : Nat → List OpenBlock → Prop) (line : Nat) (box : Option Nat) : Prop :=
  ∃ blocks, At line blocks ∧ box = blocks.findSome? (·.box?)

/-- Sections and declarations stand directly inside of the blocks that are open there, where
`At line blocks` says that these are open on the line, the innermost first. -/
structure View.IsPlaced (At : Nat → List OpenBlock → Prop) (v : View) : Prop where
  sections : ∀ i f, v.fragments[i]? = some f → ∀ p ∈ f.sections,
    ∃ outer, At p.1 (.fragment i :: outer)
  participants : ∀ p ∈ v.participants, ∀ line ∈ p.line, BoxAt At line p.box

namespace View.IsPlaced

variable {At : Nat → List OpenBlock → Prop}

theorem alter {v : View} {f : ParticipantRecord → ParticipantRecord} (h : v.IsPlaced At)
    (name : Text) (hf : ∀ p : ParticipantRecord, (∀ line ∈ p.line, BoxAt At line p.box) →
      ∀ line ∈ (f p).line, BoxAt At line (f p).box) : (v.alter name f).IsPlaced At where
  sections := h.sections
  participants := forall_alterParticipant h.participants
    (hf { name } fun _ hi => absurd hi (by simp)) hf

theorem modify_fragments {fs : List FragmentRecord} {g : FragmentRecord → FragmentRecord} (i : Nat)
    (h : ∀ i f, fs[i]? = some f → ∀ p ∈ f.sections, ∃ outer, At p.1 (.fragment i :: outer))
    (hg : ∀ f, ∀ p ∈ (g f).sections, p ∈ f.sections ∨ ∃ outer, At p.1 (.fragment i :: outer)) :
    ∀ j f, (fs.modify i g)[j]? = some f → ∀ p ∈ f.sections,
      ∃ outer, At p.1 (.fragment j :: outer) := by
  intro j f hf p hp
  rw [List.getElem?_modify] at hf
  obtain ⟨f', hf', rfl⟩ := Option.map_eq_some_iff.1 hf
  split at hp
  · next heq =>
    subst heq
    rcases hg f' p hp with hp | hat
    exacts [h i f' hf' p hp, hat]
  · exact h j f' hf' p hp

theorem step (h : r.view.IsPlaced At) (hat : st.blockStep = .stay → At line r.openBlocks) :
    (r.step line st).view.IsPlaced At := by
  cases st with
  | participant p =>
    refine h.alter p.name fun q hq => ?_
    rw [ParticipantRecord.declare]
    split
    · exact hq
    · rintro _ ⟨⟩
      exact ⟨_, hat rfl, rfl⟩
  | message m =>
    have hview := (h.alter m.sender fun _ => id).alter m.receiver fun _ => id
    exact ⟨hview.sections, hview.participants⟩
  | separator label =>
    rw [Reader.step]
    split
    · next i outer hopen =>
      refine ⟨modify_fragments i h.sections fun f p hp => ?_, h.participants⟩
      rcases List.mem_append.1 hp with hp | hp
      · exact .inl hp
      · rw [List.mem_singleton.1 hp]
        exact .inr ⟨outer, hopen ▸ hat rfl⟩
    · exact h
  | fragmentOpen header =>
    refine ⟨fun i f hf p hp => ?_, h.participants⟩
    rw [Reader.step, List.getElem?_append] at hf
    split at hf
    · exact h.sections i f hf p hp
    · obtain rfl := List.mem_singleton.1 (List.mem_of_getElem? hf)
      cases hp
  | blockEnd =>
    rw [Reader.step]
    split
    · exact h
    · next b outer _ =>
      cases b with
      | fragment i => exact ⟨modify_fragments i h.sections fun f p hp => .inl hp, h.participants⟩
      | box i => exact ⟨h.sections, h.participants⟩
  | _ => exact ⟨h.sections, h.participants⟩

theorem readAll (h : r.view.IsPlaced At)
    (hat : ∀ k text, lines[k]? = some text → Source.blockStep blockRules text = .stay →
      At (index + k) (r.readAll (numbered index (lines.take k))).openBlocks) :
    (r.readAll (numbered index lines)).view.IsPlaced At := by
  induction lines generalizing r index with
  | nil => exact h
  | cons text lines ih =>
    refine @ih _ (index + 1) (h.step fun hstay => ?_) fun k text' htext hstay => ?_
    · rw [Statement.blockStep_ofLine] at hstay
      exact hat 0 text rfl hstay
    · have := hat (k + 1) text' htext hstay
      rwa [← Nat.add_assoc, Nat.add_right_comm] at this

end View.IsPlaced

/-! ## The blocks of the view -/

namespace View

/-- Around the line there is no box, or the box with this number is the innermost one. -/
def IsInnermostBox (v : View) (line : Nat) : Option Nat → Prop
  | none => ∀ b ∈ v.boxes, b.span.contains line = false
  | some i => ∃ b, v.boxes[i]? = some b ∧ b.span.contains line = true ∧
      ∀ c ∈ v.boxes, c.span.contains line = true →
        c.span.start ≤ b.span.start ∧ b.span.stop ≤ c.span.stop

/-- The blocks that the view shows are those of the source. -/
structure BlocksAgree (v : View) (s : Source) : Prop where
  spans : v.spans.Perm (s.blocks blockRules)
  nodup : v.spans.Nodup
  /-- A section begins strictly inside of its fragment and in no block nested in it. -/
  sections : ∀ f ∈ v.fragments, ∀ p ∈ f.sections, f.span.start < p.1 ∧ p.1 < f.span.stop ∧
    ∀ b ∈ v.spans, f.span.start < b.start → b.stop < f.span.stop → b.contains p.1 = false
  participants : ∀ p ∈ v.participants, ∀ line ∈ p.line, v.IsInnermostBox line p.box

end View

/-- The reader in front of line number `k` of the body. -/
def readerAt (s : Source) (k : Nat) : Reader :=
  (Reader.start s).readAll
    (numbered (s.bodyIndex .sequence) ((s.lines.drop (s.bodyIndex .sequence)).take k))

theorem ofSource_eq_readerAt (s : Source) :
    View.ofSource s = (readerAt s (s.lines.drop (s.bodyIndex .sequence)).length).view := by
  rw [View.ofSource_eq, readerAt, List.take_length, body_eq_numbered]

/-- The line of the body neither opens nor closes a block, and these blocks are open there. -/
def OpenAt (s : Source) (line : Nat) (blocks : List OpenBlock) : Prop :=
  ∃ k text, line = s.bodyIndex .sequence + k ∧ s.lines[line]? = some text ∧
    Source.blockStep blockRules text = .stay ∧ blocks = (readerAt s k).openBlocks

theorem isPlaced_ofSource (s : Source) : (View.ofSource s).IsPlaced (OpenAt s) := by
  rw [View.ofSource_eq, body_eq_numbered]
  have hstart : (Reader.start s).view.IsPlaced (OpenAt s) :=
    ⟨fun _ _ h => absurd h (by simp [Reader.start]), fun _ h => absurd h (by simp [Reader.start])⟩
  refine hstart.readAll fun k text htext hstay => ⟨k, text, rfl, ?_, hstay, rfl⟩
  rwa [List.getElem?_drop] at htext

section Body

variable (hprelude : ∀ line ∈ s.lines.take (s.bodyIndex .sequence),
  Source.blockStep blockRules line = .stay)
include hprelude

/-- The reader in front of a line of the body has the blocks open that are open there. -/
theorem follows_readerAt (k : Nat) : (readerAt s k).Follows
    (closedBlocks blockRules (s.bodyIndex .sequence) []
      ((s.lines.drop (s.bodyIndex .sequence)).take k))
    (openersAt blockRules s (s.bodyIndex .sequence + k)) := by
  have hstart : (Reader.start s).Follows [] [] := ⟨.refl [], rfl⟩
  rw [openersAt_add (bodyIndex_le .sequence s) hprelude]
  exact hstart.readAll (List.pairwise_singleton ..) _

theorem spans_ofSource (hbalance : s.checkBalance blockRules = .ok ()) :
    (View.ofSource s).spans.Perm (s.blocks blockRules) := by
  have hle := bodyIndex_le .sequence s
  have hfollows := (follows_readerAt hprelude (s.lines.drop (s.bodyIndex .sequence)).length).spans
  rw [openersAt_add hle hprelude, List.take_length, openersAfter_drop hle hprelude hbalance,
    ← closedBlocks_drop hle hprelude, List.map_nil, List.append_nil] at hfollows
  rw [ofSource_eq_readerAt]
  exact hfollows.trans (blocks_perm _ _).symm

/-- The blocks open on a line begin in the end on the lines that opened them. -/
theorem starts_of_openAt {blocks : List OpenBlock} (h : OpenAt s line blocks) :
    blocks.map (fun b => ((View.ofSource s).span? b).map (·.start)) =
      (openersAt blockRules s line).map some := by
  obtain ⟨k, text, rfl, -, -, rfl⟩ := h
  have hfollows := follows_readerAt hprelude k
  have hmap := congrArg (List.map (Option.map BlockSpan.start)) hfollows.openBlocks
  rw [List.map_map, List.map_map] at hmap
  refine Eq.trans (List.map_congr_left fun b hb => ?_) hmap
  obtain ⟨start, -, hspan⟩ := hfollows.span?_of_mem hb
  -- What is read behind the line does not change where the block begins.
  have hrest : (readerAt s (s.lines.drop (s.bodyIndex .sequence)).length) =
      (readerAt s k).readAll (numbered (s.bodyIndex .sequence +
        ((s.lines.drop (s.bodyIndex .sequence)).take k).length)
          ((s.lines.drop (s.bodyIndex .sequence)).drop k)) := by
    rw [readerAt, readerAt, Reader.readAll, Reader.readAll, Reader.readAll, ← List.foldl_append,
      ← numbered_append, List.take_append_drop, List.take_length]
  obtain ⟨span, hspan', hstart⟩ := Reader.start_readAll hspan (numbered (s.bodyIndex .sequence +
    ((s.lines.drop (s.bodyIndex .sequence)).take k).length)
      ((s.lines.drop (s.bodyIndex .sequence)).drop k))
  rw [Function.comp_apply, hspan, ofSource_eq_readerAt, hrest, hspan']
  exact congrArg some hstart

theorem exists_span?_of_openAt {blocks : List OpenBlock} {b : OpenBlock} (h : OpenAt s line blocks)
    (hb : b ∈ blocks) : ∃ span, (View.ofSource s).span? b = some span := by
  have hmem := List.mem_map_of_mem (f := fun b => ((View.ofSource s).span? b).map (·.start)) hb
  rw [starts_of_openAt hprelude h] at hmem
  obtain ⟨start, -, heq⟩ := List.mem_map.1 hmem
  obtain ⟨span, hspan, -⟩ := Option.map_eq_some_iff.1 heq.symm
  exact ⟨span, hspan⟩

/-- Of the blocks open on a line, those further in begin further down. -/
theorem pairwise_of_openAt {blocks : List OpenBlock} (h : OpenAt s line blocks) :
    blocks.Pairwise fun b c => ∀ x y, (View.ofSource s).span? b = some x →
      (View.ofSource s).span? c = some y → y.start < x.start := by
  have hpair : ((openersAt blockRules s line).map some).Pairwise fun a b =>
      ∀ x y, a = some x → b = some y → y < x := by
    obtain ⟨-, _, -, htext, -⟩ := id h
    have hle := Nat.le_of_lt (List.getElem?_eq_some_iff.1 htext).1
    refine List.pairwise_map.2 ((pairwise_openersAt blockRules hle).of_cons.imp ?_)
    rintro a b hab _ _ ⟨⟩ ⟨⟩
    exact hab
  rw [← starts_of_openAt hprelude h, List.pairwise_map] at hpair
  exact hpair.imp fun h x y hx hy => h _ _ (by rw [hx]; rfl) (by rw [hy]; rfl)

end Body

namespace View

section

variable (hbalance : s.checkBalance blockRules = .ok ())
  (hprelude : ∀ line ∈ s.lines.take (s.bodyIndex .sequence),
    Source.blockStep blockRules line = .stay)
include hbalance hprelude

theorem nodup_spans : (View.ofSource s).spans.Nodup :=
  (spans_ofSource hprelude hbalance).nodup_iff.2 (nodup_blocks blockRules s)

/-- The blocks around a line are those that are open there. -/
theorem mem_openAt_iff {blocks : List OpenBlock} {b : OpenBlock} {span : BlockSpan}
    (h : OpenAt s line blocks) (hb : (View.ofSource s).span? b = some span) :
    b ∈ blocks ↔ span.contains line = true := by
  have hstarts := starts_of_openAt hprelude h
  obtain ⟨_, text, -, htext, hstay, -⟩ := h
  have hblock : span ∈ s.blocks blockRules :=
    (spans_ofSource hprelude hbalance).mem_iff.1 (mem_spans.2 ⟨b, hb⟩)
  rw [contains_iff_mem_openersAt htext hstay hbalance hblock]
  constructor
  · intro hmem
    have := List.mem_map_of_mem (f := fun b => ((View.ofSource s).span? b).map (·.start)) hmem
    rw [hstarts, hb] at this
    simpa using this
  · intro hmem
    have := List.mem_map_of_mem (f := some) hmem
    rw [← hstarts] at this
    obtain ⟨c, hc, heq⟩ := List.mem_map.1 this
    obtain ⟨span', hspan', hstart⟩ := Option.map_eq_some_iff.1 heq
    have hblock' : span' ∈ s.blocks blockRules :=
      (spans_ofSource hprelude hbalance).mem_iff.1 (mem_spans.2 ⟨c, hspan'⟩)
    rw [eq_of_start_eq hblock' hblock hstart] at hspan'
    rwa [span?_inj (nodup_spans hbalance hprelude) hb hspan']

theorem sections_ofSource {f : FragmentRecord} (hf : f ∈ (View.ofSource s).fragments)
    {p : Nat × Text} (hp : p ∈ f.sections) : f.span.start < p.1 ∧ p.1 < f.span.stop ∧
      ∀ b ∈ (View.ofSource s).spans, f.span.start < b.start → b.stop < f.span.stop →
        b.contains p.1 = false := by
  obtain ⟨i, hi⟩ := List.mem_iff_getElem?.1 hf
  obtain ⟨outer, hopen⟩ := (isPlaced_ofSource s).sections i f hi p hp
  have hspan : (View.ofSource s).span? (.fragment i) = some f.span := by
    rw [span?, List.getElem?_map, hi]
    rfl
  have hcontains := (mem_openAt_iff hbalance hprelude hopen hspan).1 List.mem_cons_self
  have hblock : f.span ∈ s.blocks blockRules :=
    (spans_ofSource hprelude hbalance).mem_iff.1 (mem_spans.2 ⟨_, hspan⟩)
  obtain ⟨-, text, -, htext, hstay, -⟩ := id hopen
  obtain ⟨hstart, hstop⟩ := lt_of_mem_openersAt htext hstay hbalance hblock
    (mem_openersAt_of_contains htext hstay hblock hcontains)
  refine ⟨hstart, hstop, fun b hb hlt _ => Bool.eq_false_iff.2 fun hb' => ?_⟩
  -- A block around the section is the fragment itself, or it goes around the fragment.
  obtain ⟨c, hc⟩ := mem_spans.1 hb
  rcases List.mem_cons.1 ((mem_openAt_iff hbalance hprelude hopen hc).2 hb') with rfl | hmem
  · rw [Option.some.inj (hc.symm.trans hspan)] at hlt
    exact Nat.lt_irrefl _ hlt
  · have := List.rel_of_pairwise_cons (pairwise_of_openAt hprelude hopen) hmem _ _ hspan hc
    omega

theorem isInnermostBox_ofSource {p : ParticipantRecord} (hp : p ∈ (View.ofSource s).participants)
    (hline : line ∈ p.line) : (View.ofSource s).IsInnermostBox line p.box := by
  obtain ⟨blocks, hopen, hbox⟩ := (isPlaced_ofSource s).participants p hp line hline
  have hspan : ∀ {i b}, (View.ofSource s).boxes[i]? = some b →
      (View.ofSource s).span? (.box i) = some b.span := by
    intro i b hb
    rw [span?, List.getElem?_map, hb]
    rfl
  cases hp : p.box with
  | none =>
    rw [hp, eq_comm, List.findSome?_eq_none_iff] at hbox
    intro b hb
    obtain ⟨i, hi⟩ := List.mem_iff_getElem?.1 hb
    refine Bool.eq_false_iff.2 fun hcontains => ?_
    have := hbox _ ((mem_openAt_iff hbalance hprelude hopen (hspan hi)).2 hcontains)
    cases this
  | some i =>
    rw [hp, eq_comm, List.findSome?_eq_some_iff] at hbox
    obtain ⟨inner, c, outer, rfl, hc, hinner⟩ := hbox
    obtain rfl : c = .box i := by
      cases c with
      | fragment j => cases hc
      | box j => rw [OpenBlock.box?, Option.some.injEq] at hc; rw [hc]
    have hmem : OpenBlock.box i ∈ inner ++ .box i :: outer :=
      List.mem_append_right _ List.mem_cons_self
    obtain ⟨span, hi⟩ := exists_span?_of_openAt hprelude hopen hmem
    have hcontains := (mem_openAt_iff hbalance hprelude hopen hi).1 hmem
    rw [span?, List.getElem?_map] at hi
    obtain ⟨b, hb, rfl⟩ := Option.map_eq_some_iff.1 hi
    refine ⟨b, hb, hcontains, fun c hc hcline => ?_⟩
    obtain ⟨j, hj⟩ := List.mem_iff_getElem?.1 hc
    have hblocks : ∀ {i} {b : BoxRecord}, (View.ofSource s).boxes[i]? = some b →
        b.span ∈ s.blocks blockRules := fun hb =>
      (spans_ofSource hprelude hbalance).mem_iff.1 (mem_spans.2 ⟨_, hspan hb⟩)
    have hstart : c.span.start ≤ b.span.start := by
      rcases List.mem_append.1 ((mem_openAt_iff hbalance hprelude hopen (hspan hj)).2 hcline) with
        hin | hmem
      · exact absurd (hinner _ hin) (by simp [OpenBlock.box?])
      rcases List.mem_cons.1 hmem with heq | hout
      · obtain rfl := OpenBlock.box.inj heq
        rw [Option.some.inj (hj.symm.trans hb)]
      · have houter := (List.pairwise_append.1 (pairwise_of_openAt hprelude hopen)).2.1
        exact Nat.le_of_lt (List.rel_of_pairwise_cons houter hout _ _ (hspan hb) (hspan hj))
    exact ⟨hstart, stop_le_stop_of_contains (hblocks hb) (hblocks hj) hcontains hcline hstart⟩

end

/-- In a balanced source without blocks up to its declaration, fragments and boxes together are
the blocks. -/
theorem blocksAgree_ofSource (s : Source) (hbalance : s.checkBalance blockRules = .ok ())
    (hprelude : ∀ line ∈ s.lines.take (s.bodyIndex .sequence),
      Source.blockStep blockRules line = .stay) :
    (View.ofSource s).BlocksAgree s where
  spans := spans_ofSource hprelude hbalance
  nodup := nodup_spans hbalance hprelude
  sections _ hf _ hp := sections_ofSource hbalance hprelude hf hp
  participants _ hp _ hline := isInnermostBox_ofSource hbalance hprelude hp hline

/-- A loop in the first section of an alternative inside of a box, and a declaration below it. -/
theorem blocksAgree_ofSource_nested :
    let s : Source := .ofLines (["%% loop", "sequenceDiagram", "box red Team", "alt ready",
      "loop x", "A->>B: m", "end", "else", "participant A", "end", "end"].map String.toList)
    s.checkBalance blockRules = .ok () ∧
      (∀ line ∈ s.lines.take (s.bodyIndex .sequence), Source.blockStep blockRules line = .stay) ∧
        (View.ofSource s).fragments.map (·.sections) = [[(7, [])], []] ∧
          (View.ofSource s).participants.map (·.box) = [some 0, none] ∧
            (View.ofSource s).BlocksAgree s := by
  intro s
  have hbalance : s.checkBalance blockRules = .ok () := rfl
  have hprelude : ∀ line ∈ s.lines.take (s.bodyIndex .sequence),
      Source.blockStep blockRules line = .stay := by decide +kernel
  exact ⟨hbalance, hprelude, by decide +kernel, by decide +kernel,
    blocksAgree_ofSource s hbalance hprelude⟩

end View

end DiagramEditor.Sequence
