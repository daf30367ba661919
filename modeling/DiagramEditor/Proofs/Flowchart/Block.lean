import DiagramEditor.Proofs.Flowchart.View
import DiagramEditor.Proofs.Source.Nesting

/-!
# When the subgraphs are the blocks of the source

The view opens a subgraph where a line reads as a header, and the source opens a block where the
trimmed line is `subgraph` or goes on with a plain space behind this word. A line may be one and not
the other: the bare word is no header, and a header may have a tab behind the word. On lines where
both agree (`SubgraphHeader.IsUniform`) the reader goes along with the source (`Reader.Follows`), and
subgraphs and blocks of a balanced source are the same exactly if all its lines are of this kind
(`View.spans_eq_blocks_iff`).
-/

namespace DiagramEditor.Flowchart

open Text Source
open NodeToken (IsIdent)

variable {line index : Nat} {text rest : Text} {lines : List Text} {openers : List Nat}
  {closed : List BlockSpan} {st : Statement} {sts : List (Nat × Statement)} {r : Reader} {s : Source}

/-! ## Lines -/

theorem isIdent_subgraphWord : IsIdent subgraphWord :=
  isIdent_of_mem_statementKeywords (by decide)

/-- What stands behind the word goes on, behind blanks, with a quoted title or an id. -/
def SubgraphHeader.HasName (rest : Text) : Prop :=
  startsWithSpace rest = true ∧
    ∃ c ∈ (trimStart rest).head?, c = '"' ∨ Identifier.isIdentChar c = true

/-- If the line begins with the word `subgraph`, nothing or a plain space stands behind it exactly
if a title or an id follows. -/
def SubgraphHeader.IsUniform (line : Text) : Prop :=
  ∀ rest, trim line = subgraphWord ++ rest →
    (rest = [] ∨ rest.head? = some ' ' ↔ SubgraphHeader.HasName rest)

theorem isSubgraphOpen_iff : isSubgraphOpen (trim text) = true ↔
    ∃ rest, trim text = subgraphWord ++ rest ∧ (rest = [] ∨ rest.head? = some ' ') := by
  rw [isSubgraphOpen, Bool.or_eq_true, decide_eq_true_eq, startsWith, Option.isSome_iff_exists]
  constructor
  · rintro (h | ⟨rest, h⟩)
    · exact ⟨[], by rw [h, List.append_nil], .inl rfl⟩
    · exact ⟨' ' :: rest, by rw [stripFront?_eq_some.1 h]; simp, .inr rfl⟩
  · rintro ⟨rest, h, rfl | hrest⟩
    · exact .inl (by rw [h, List.append_nil])
    · obtain ⟨rest, rfl⟩ := List.head?_eq_some_iff.1 hrest
      exact .inr ⟨rest, stripFront?_eq_some.2 (by rw [h]; simp)⟩

theorem SubgraphHeader.HasName.not_isBlank (h : HasName rest) : ¬IsBlank rest := by
  intro hblank
  obtain ⟨-, c, hc, -⟩ := h
  rw [trimStart_eq_nil_iff.2 hblank] at hc
  cases hc

/-- Blanks at the end of the line do not matter. -/
theorem SubgraphHeader.hasName_append {w : Text} (hrest : ¬IsBlank rest) :
    HasName (rest ++ w) ↔ HasName rest := by
  obtain ⟨c, cs, hcons⟩ := List.exists_cons_of_ne_nil (mt trimStart_eq_nil_iff.1 hrest)
  rw [HasName, HasName, trimStart_append hrest, hcons]
  cases rest with
  | nil => exact absurd isBlank_nil hrest
  | cons d rest => rfl

theorem header_isSome_iff_trimStart : (SubgraphHeader.ofLine? text).isSome = true ↔
    ∃ rest, trimStart text = subgraphWord ++ rest ∧ SubgraphHeader.HasName rest := by
  have hread : ∀ rest, (∃ c ∈ (trimStart rest).head?, c = '"' ∨ Identifier.isIdentChar c = true) ↔
      (trimEnd (trimStart rest)).head? = some '"' ∨
        (trimEnd (trimStart rest)).takeWhile Identifier.isIdentChar ≠ [] := by
    intro rest
    rw [← head?_trim, Text.trim]
    cases trimEnd (trimStart rest) with
    | nil => simp
    | cons c cs =>
      rw [List.head?_cons, List.takeWhile_cons]
      cases hc : Identifier.isIdentChar c <;> simp [hc]
  simp only [SubgraphHeader.HasName, hread]
  constructor
  · intro h
    obtain ⟨header, hheader⟩ := Option.isSome_iff_exists.1 h
    simp only [SubgraphHeader.ofLine?, Option.bind_eq_bind, Option.bind_eq_some_iff,
      Option.guard_eq_some', stripFront?_eq_some] at hheader
    obtain ⟨rest, hrest, _, hspace, hbody⟩ := hheader
    refine ⟨rest, hrest, hspace, ?_⟩
    split at hbody
    · next hquote => exact .inl hquote
    · obtain ⟨_, hid, -⟩ := Option.bind_eq_some_iff.1 hbody
      exact .inr (by simpa using hid)
  · rintro ⟨rest, hrest, hspace, hbody⟩
    rw [SubgraphHeader.ofLine?, stripFront?_eq_some.2 hrest]
    simp only [Option.bind_eq_bind, Option.bind_some, hspace, guard_true]
    split
    · rfl
    · next hquote =>
      have hid := hbody.resolve_left hquote
      simp [hid]

theorem header_isSome_iff : (SubgraphHeader.ofLine? text).isSome = true ↔
    ∃ rest, trim text = subgraphWord ++ rest ∧ SubgraphHeader.HasName rest := by
  rw [header_isSome_iff_trimStart]
  obtain ⟨w, hw, htrim⟩ := exists_trimEnd_append (trimStart text)
  rw [← Text.trim] at htrim
  constructor
  · rintro ⟨rest, hrest, hname⟩
    have hfront : trim text = subgraphWord ++ trimEnd rest := by
      rw [Text.trim, hrest, trimEnd_append _ hname.not_isBlank]
    obtain ⟨v, hv, hrest'⟩ := exists_trimEnd_append rest
    have hblank : ¬IsBlank (trimEnd rest) := fun h => hname.not_isBlank (hrest' ▸ h.append hv)
    rw [← hrest'] at hname
    exact ⟨_, hfront, (SubgraphHeader.hasName_append hblank).1 hname⟩
  · rintro ⟨rest, hrest, hname⟩
    refine ⟨rest ++ w, by rw [← htrim, hrest, List.append_assoc], ?_⟩
    exact (SubgraphHeader.hasName_append hname.not_isBlank).2 hname

theorem SubgraphHeader.isUniform_iff : SubgraphHeader.IsUniform text ↔
    isSubgraphOpen (trim text) = (SubgraphHeader.ofLine? text).isSome := by
  have hsame : ∀ rest rest', trim text = subgraphWord ++ rest → trim text = subgraphWord ++ rest' →
      rest = rest' := fun rest rest' h h' => List.append_cancel_left (h.symm.trans h')
  rw [Bool.eq_iff_iff, isSubgraphOpen_iff, header_isSome_iff]
  constructor
  · intro h
    exact exists_congr fun rest => and_congr_right fun hrest => h rest hrest
  · intro h rest hrest
    constructor
    · intro hopen
      obtain ⟨rest', hrest', hname⟩ := h.1 ⟨rest, hrest, hopen⟩
      rwa [hsame rest rest' hrest hrest']
    · intro hname
      obtain ⟨rest', hrest', hopen⟩ := h.2 ⟨rest, hrest, hname⟩
      rwa [hsame rest rest' hrest hrest']

instance (text : Text) : Decidable (SubgraphHeader.IsUniform text) :=
  decidable_of_iff _ SubgraphHeader.isUniform_iff.symm

/-- What the statement does to the nesting. -/
def Statement.blockStep : Statement → BlockStep
  | .subgraphOpen _ => .enter
  | .blockEnd => .leave
  | _ => .stay

/-- A directive mentions no node and does nothing to the nesting. -/
theorem Statement.IsDirective.eq_nil (h : st.IsDirective) :
    st.tokens = [] ∧ st.link? = none ∧ st.subgraph? = none ∧ st.blockStep = .stay := by
  cases st <;> first | exact h.elim | exact ⟨rfl, rfl, rfl, rfl⟩

/-- A statement that mentions nodes is no directive about them, and it stays in its block. -/
theorem Statement.stay_of_mem_tokens {t : NodeToken} (h : t ∈ st.tokens) :
    st.blockStep = .stay ∧ ¬st.IsDirective := by
  cases st with
  | link l => exact ⟨rfl, fun h => h⟩
  | node n => exact ⟨rfl, fun h => h⟩
  | _ => cases h

/-- A header and an end are read before all else. -/
theorem Statement.blockStep_ofLine (text : Text) : (Statement.ofLine text).blockStep =
    if (SubgraphHeader.ofLine? text).isSome then .enter
    else if isBlockEnd (trim text) then .leave else .stay := by
  rw [Statement.ofLine]
  split
  · next hsilent =>
    have hheader : SubgraphHeader.ofLine? text = none := by
      refine Option.eq_none_iff_forall_ne_some.2 fun header hread => ?_
      have hword := wordThenBlank_of_header hread
      rw [not_silent_of_word hword isIdent_subgraphWord] at hsilent
      cases hsilent
    have hend : isBlockEnd (trim text) = false := by
      rw [isBlockEnd, Bool.or_eq_false_iff, decide_eq_false_iff_not, decide_eq_false_iff_not]
      constructor <;> intro heq <;> rw [heq] at hsilent <;> revert hsilent <;> decide
    rw [hheader, hend]
    rfl
  split
  · next header hread =>
    rw [hread]
    rfl
  · next hread =>
    simp only [hread, Option.isSome_none, Bool.false_eq_true, if_false]
    split
    · rfl
    · repeat' split
      all_goals rfl

theorem blockStep_eq (text : Text) : Source.blockStep blockRules text =
    if isSubgraphOpen (trim text) then .enter
    else if isBlockEnd (trim text) then .leave else .stay := rfl

/-- On a line where both notions of a header agree, so do the reader and the source. -/
theorem SubgraphHeader.IsUniform.blockStep_ofLine (h : IsUniform text) :
    (Statement.ofLine text).blockStep = Source.blockStep blockRules text := by
  rw [Statement.blockStep_ofLine, blockStep_eq, SubgraphHeader.isUniform_iff.1 h]

theorem Statement.blockStep_eq_enter_iff : (Statement.ofLine text).blockStep = .enter ↔
    (SubgraphHeader.ofLine? text).isSome = true := by
  rw [Statement.blockStep_ofLine]
  split
  · next h => simp [h]
  · next h =>
    split <;> simp [h]

theorem blockStep_eq_enter_iff : Source.blockStep blockRules text = .enter ↔
    isSubgraphOpen (trim text) = true :=
  Source.blockStep_eq_enter_iff

/-! ## The subgraphs of the reader -/

/-- The spans of the subgraphs, as they were opened. -/
def View.spans (v : View) : List BlockSpan :=
  v.subgraphs.map (·.span)

namespace View

theorem spans_closeAt (i line : Nat) (v : View) : (Reader.closeAt i line v).spans =
    v.spans.modify i fun b => ⟨b.start, line⟩ :=
  map_modify (g := SubgraphRecord.span) (k := fun b => ⟨b.start, line⟩) (fun _ => rfl) _ _

theorem spans_addMention (m : Mention) (t : NodeToken) (container : Option Nat) (v : View) :
    (v.addMention m t container).spans = v.spans := by
  cases container with
  | none => rfl
  | some i =>
    refine map_modify_of_eq (g := SubgraphRecord.span) (fun g => ?_) i v.subgraphs
    rw [SubgraphRecord.addMember]
    split <;> rfl

theorem spans_addMentions (container : Option Nat) (ms : List (Mention × NodeToken)) (v : View) :
    (v.addMentions container ms).spans = v.spans := by
  induction ms generalizing v with
  | nil => rfl
  | cons p ms ih => exact (ih _).trans (spans_addMention p.1 p.2 container v)

theorem spans_dropSubgraphIds (v : View) : v.dropSubgraphIds.spans = v.spans := by
  rw [dropSubgraphIds, spans, spans, List.map_map]
  rfl

end View

namespace Reader

/-- The subgraphs met so far. -/
def table (r : Reader) : BlockTable Nat :=
  ⟨r.view.spans, (r.view.spans[·]?), r.openBlocks⟩

/-- The reader has met the blocks `closed`, and it has the blocks open that begin on the lines
`openers`, the innermost first. -/
abbrev Follows (r : Reader) (closed : List BlockSpan) (openers : List Nat) : Prop :=
  r.table.Follows closed openers

theorem table_step_of_stay (h : st.blockStep = .stay) (r : Reader) (line : Nat) :
    (r.step line st).table = r.table := by
  have htable : ∀ v : View, v.spans = r.view.spans → table ⟨v, r.openBlocks⟩ = r.table := by
    intro v hv
    rw [table, table, hv]
  cases st with
  | link l =>
    exact htable _ (View.spans_addMentions r.openBlocks.head? ((Statement.link l).mentions line) r.view)
  | node n =>
    exact htable _ (View.spans_addMentions r.openBlocks.head? ((Statement.node n).mentions line) r.view)
  | subgraphOpen header => cases h
  | blockEnd => cases h
  | _ => rfl

theorem Follows.step (h : r.Follows closed openers) (ho : openers.Pairwise (· > ·)) (line : Nat)
    (st : Statement) : (r.step line st).Follows (closed ++ st.blockStep.closed line openers)
      (st.blockStep.openersBehind line openers) := by
  cases hst : st.blockStep with
  | stay =>
    simp only [BlockStep.closed, List.append_nil]
    rw [Follows, table_step_of_stay hst]
    exact h
  | enter =>
    simp only [BlockStep.closed, List.append_nil]
    cases st with
    | subgraphOpen header =>
      refine h.enter ?_ rfl ?_ fun c span hc => ?_
      · simp [table, View.spans, Reader.step]
      · simp [table, View.spans, Reader.step]
      · simpa [table, View.spans, Reader.step] using
          BlockTable.getElem?_append_of_eq_some hc [.single line]
    | _ => cases hst
  | leave =>
    cases st with
    | blockEnd =>
      rw [Reader.step]
      split
      · next hopen =>
        obtain rfl := h.eq_nil hopen
        rw [show BlockStep.leave.closed line [] = [] from rfl, List.append_nil]
        exact h
      · next i outer hopen =>
        refine h.leave (u := table ⟨closeAt i line r.view, outer⟩) ho hopen (fun span hspan => ?_)
          fun j hj => ?_
        · obtain ⟨rest, hrest, hmodify⟩ := BlockTable.perm_modify hspan
            fun b => (⟨b.start, line⟩ : BlockSpan)
          refine ⟨rest, hrest, ?_⟩
          rw [table, View.spans_closeAt]
          exact hmodify
        · change (closeAt i line r.view).spans[j]? = r.view.spans[j]?
          rw [View.spans_closeAt, List.getElem?_modify_ne _ _ hj]
    | _ => cases hst

theorem Follows.readAll (h : r.Follows closed openers) (ho : (index :: openers).Pairwise (· > ·))
    (hlines : ∀ text ∈ lines, SubgraphHeader.IsUniform text) :
    (r.readAll ((numbered index lines).map fun p => (p.1, Statement.ofLine p.2))).Follows
      (closed ++ closedBlocks blockRules index openers lines)
      (openersAfter blockRules index openers lines) := by
  induction lines generalizing r index openers closed with
  | nil =>
    rw [closedBlocks, List.append_nil]
    exact h
  | cons text lines ih =>
    obtain ⟨htext, hlines⟩ := List.forall_mem_cons.1 hlines
    have hstep := h.step ho.of_cons index (.ofLine text)
    rw [htext.blockStep_ofLine] at hstep
    rw [closedBlocks_cons, openersAfter, ← List.append_assoc]
    exact ih hstep (BlockStep.pairwise_openersBehind ho _) hlines

theorem starts_closeAt (i line : Nat) (v : View) :
    (closeAt i line v).spans.map (·.start) = v.spans.map (·.start) := by
  rw [View.spans_closeAt]
  exact map_modify_of_eq (f := fun b => (⟨b.start, line⟩ : BlockSpan)) (g := BlockSpan.start)
    (fun _ => rfl) i v.spans

theorem starts_step (r : Reader) (line : Nat) (st : Statement) :
    (r.step line st).view.spans.map (·.start) =
      r.view.spans.map (·.start) ++ if st.blockStep = .enter then [line] else [] := by
  cases hst : st.blockStep with
  | stay =>
    have hspans := congrArg BlockTable.spans (table_step_of_stay hst r line)
    rw [if_neg (by simp), List.append_nil]
    exact congrArg _ hspans
  | enter =>
    cases st with
    | subgraphOpen header => simp [Reader.step, View.spans, BlockSpan.single]
    | _ => cases hst
  | leave =>
    rw [if_neg (by simp), List.append_nil]
    cases st with
    | blockEnd =>
      rw [Reader.step]
      split
      exacts [rfl, starts_closeAt _ _ _]
    | _ => cases hst

/-- The subgraphs begin on the lines that read as headers. -/
theorem starts_readAll (r : Reader) (sts : List (Nat × Statement)) :
    (r.readAll sts).view.spans.map (·.start) =
      r.view.spans.map (·.start) ++ (sts.filter fun p => p.2.blockStep = .enter).map Prod.fst := by
  induction sts generalizing r with
  | nil => exact (List.append_nil _).symm
  | cons p sts ih =>
    rw [readAll_cons, ih, starts_step, List.append_assoc]
    congr 1
    by_cases hp : p.2.blockStep = .enter <;> simp [hp]

theorem starts_finish (length : Nat) (r : Reader) :
    (r.finish length).spans.map (·.start) = r.view.spans.map (·.start) := by
  have hclose : ∀ (is : List Nat) (v : View),
      (is.foldl (fun v i => closeAt i (length - 1) v) v).spans.map (·.start) =
        v.spans.map (·.start) := by
    intro is
    induction is with
    | nil => exact fun _ => rfl
    | cons i is ih => exact fun v => (ih _).trans (starts_closeAt i _ v)
  rw [finish, View.spans_dropSubgraphIds, hclose]

end Reader

/-- The subgraphs of a source begin on the lines that read as headers, in order. -/
theorem starts_ofSource (s : Source) : (View.ofSource s).spans.map (·.start) =
    ((statements s).filter fun p => p.2.blockStep = .enter).map Prod.fst := by
  rw [View.ofSource_eq, Reader.starts_finish, Reader.starts_readAll]
  rfl

theorem mem_starts_ofSource : index ∈ (View.ofSource s).spans.map (·.start) ↔
    ∃ text, (index, text) ∈ s.body .flowchart ∧ (SubgraphHeader.ofLine? text).isSome = true := by
  rw [starts_ofSource, List.mem_map]
  constructor
  · rintro ⟨p, hp, rfl⟩
    obtain ⟨hmem, hstep⟩ := List.mem_filter.1 hp
    obtain ⟨text, hbody, heq⟩ := mem_statements.1 hmem
    rw [decide_eq_true_eq, heq, Statement.blockStep_eq_enter_iff] at hstep
    exact ⟨text, hbody, hstep⟩
  · rintro ⟨text, hbody, hheader⟩
    refine ⟨(index, .ofLine text), List.mem_filter.2 ⟨mem_statements.2 ⟨text, hbody, rfl⟩, ?_⟩, rfl⟩
    rw [decide_eq_true_eq]
    exact Statement.blockStep_eq_enter_iff.2 hheader

theorem pairwise_spans (s : Source) :
    (View.ofSource s).spans.Pairwise fun b c => b.start < c.start := by
  have hstarts : ((View.ofSource s).spans.map (·.start)).Pairwise (· < ·) := by
    rw [starts_ofSource]
    exact List.pairwise_map.2 ((View.pairwise_statements s).filter _)
  exact List.pairwise_map.1 hstarts

/-- The line of a declaration has nothing to do with blocks. -/
theorem isUniform_of_keyword {kind : Kind} (h : Kind.ofKeyword? (firstWord (trim text)) = some kind) :
    SubgraphHeader.IsUniform text ∧ Source.blockStep blockRules text = .stay := by
  have hword : ∀ word, Kind.ofKeyword? word = none → firstWord (trim text) ≠ word := by
    rintro word hword rfl
    rw [hword] at h
    cases h
  have hfront : ∀ rest, trim text = subgraphWord ++ rest →
      (∀ c ∈ rest.head?, isSpace c = true) → False := by
    intro rest htrim hrest
    refine hword subgraphWord (by decide) ?_
    rw [htrim]
    exact firstWord_of_front (by decide) (fun _ => eq_false_of_any (by decide)) hrest
  have hopen : isSubgraphOpen (trim text) = false := by
    refine Bool.eq_false_iff.2 fun hopen => ?_
    obtain ⟨rest, htrim, rfl | hrest⟩ := isSubgraphOpen_iff.1 hopen
    · exact hfront [] htrim (by simp)
    · refine hfront rest htrim fun c hc => ?_
      rw [hrest] at hc
      obtain rfl := Option.some.inj hc
      decide
  have hheader : (SubgraphHeader.ofLine? text).isSome = false := by
    refine Bool.eq_false_iff.2 fun hheader => ?_
    obtain ⟨rest, htrim, hspace, -⟩ := header_isSome_iff.1 hheader
    exact hfront rest htrim (head?_of_startsWithSpace hspace)
  refine ⟨SubgraphHeader.isUniform_iff.2 (hopen.trans hheader.symm), ?_⟩
  refine blockStep_eq_stay hopen ?_
  simp only [blockRules, isBlockEnd, Bool.or_eq_false_iff, decide_eq_false_iff_not]
  constructor <;> intro hend
  · exact hword endWord (by decide) (by rw [hend]; decide)
  · exact hword (endWord ++ [';']) (by decide) (by rw [hend]; decide)

section Declared

variable (hdeclaration : s.declarationOf? .flowchart = some 0)
include hdeclaration

/-- The first line of the source is its declaration. -/
theorem exists_declaration_line : ∃ line rest, s.lines = line :: rest ∧
    Kind.ofKeyword? (firstWord (trim line)) = some .flowchart := by
  obtain ⟨⟨d, kind⟩, hdecl, hd⟩ := Option.map_eq_some_iff.1 hdeclaration
  obtain ⟨hsome, hkind⟩ := Option.filter_eq_some_iff.1 hdecl
  obtain ⟨front, line, rest, state, hlines, hfront, -, hdeclares⟩ := declarationFrom?_eq_some hsome
  obtain rfl : front = [] := List.length_eq_zero_iff.1 (by simp only at hd; omega)
  obtain rfl : kind = .flowchart := by simpa using hkind
  exact ⟨line, rest, hlines, hdeclares.keyword⟩

theorem bodyIndex_eq_one : s.bodyIndex .flowchart = 1 := by
  rw [Source.bodyIndex, hdeclaration]
  rfl

theorem take_bodyIndex_stay :
    ∀ line ∈ s.lines.take (s.bodyIndex .flowchart), Source.blockStep blockRules line = .stay := by
  obtain ⟨line, rest, hlines, hkeyword⟩ := exists_declaration_line hdeclaration
  rw [bodyIndex_eq_one hdeclaration, hlines]
  exact List.forall_mem_singleton.2 (isUniform_of_keyword hkeyword).2

theorem mem_body_iff : (index, text) ∈ s.body .flowchart ↔ 1 ≤ index ∧ s.lines[index]? = some text := by
  rw [body_eq_numbered, bodyIndex_eq_one hdeclaration, mem_numbered, List.getElem?_drop]
  refine and_congr_right fun h => ?_
  rw [Nat.add_sub_cancel' h]

/-- On lines where both notions of a header agree, the subgraphs are the blocks. -/
theorem spans_eq_blocks (hbalance : s.checkBalance blockRules = .ok ())
    (hlines : ∀ line ∈ s.lines, SubgraphHeader.IsUniform line) :
    (View.ofSource s).spans = s.blocks blockRules := by
  have hle := bodyIndex_le .flowchart s
  have hprelude := take_bodyIndex_stay hdeclaration
  have hstart : (Reader.start s).Follows [] [] := ⟨.refl [], rfl⟩
  have hfollows := hstart.readAll (List.pairwise_singleton _ (s.bodyIndex .flowchart))
    fun text htext => hlines text (List.mem_of_mem_drop (i := s.bodyIndex .flowchart) htext)
  rw [openersAfter_drop hle hprelude hbalance, ← closedBlocks_drop hle hprelude,
    ← body_eq_numbered, ← statements] at hfollows
  -- Nothing is open when the source ends.
  have hopen : ((Reader.start s).readAll (statements s)).openBlocks = [] :=
    List.map_eq_nil_iff.1 hfollows.openBlocks
  refine eq_blocks ?_ (pairwise_spans s)
  have hspans := hfollows.spans
  rw [List.nil_append, List.map_nil, List.append_nil] at hspans
  rw [View.ofSource_eq, Reader.finish, hopen, List.foldl_nil, View.spans_dropSubgraphIds]
  exact hspans

/-- Where the subgraphs are the blocks, both notions of a header agree. -/
theorem isUniform_of_spans_eq_blocks (hbalance : s.checkBalance blockRules = .ok ())
    (h : (View.ofSource s).spans = s.blocks blockRules) {line : Text} (hline : line ∈ s.lines) :
    SubgraphHeader.IsUniform line := by
  obtain ⟨i, hi⟩ := List.mem_iff_getElem?.1 hline
  rcases Nat.eq_zero_or_pos i with rfl | hpos
  · obtain ⟨first, rest, hlines, hkeyword⟩ := exists_declaration_line hdeclaration
    rw [hlines] at hi
    rw [← Option.some.inj hi]
    exact (isUniform_of_keyword hkeyword).1
  · rw [SubgraphHeader.isUniform_iff, Bool.eq_iff_iff, ← blockStep_eq_enter_iff]
    have hopens : Source.blockStep blockRules line = .enter ↔
        i ∈ (s.blocks blockRules).map (·.start) := by
      simp [mem_starts_iff hbalance, hi]
    have hreads : (SubgraphHeader.ofLine? line).isSome = true ↔
        i ∈ (View.ofSource s).spans.map (·.start) := by
      simp only [mem_starts_ofSource, mem_body_iff hdeclaration, hi, Option.some.injEq]
      exact ⟨fun h => ⟨line, ⟨hpos, rfl⟩, h⟩, by rintro ⟨_, ⟨-, rfl⟩, h⟩; exact h⟩
    rw [hopens, hreads, h]

end Declared

namespace View

/-- In a balanced source that begins with its declaration, the subgraphs are the blocks exactly if
the lines that read as headers are those that open a block. -/
theorem spans_eq_blocks_iff (hdeclaration : s.declarationOf? .flowchart = some 0)
    (hbalance : s.checkBalance blockRules = .ok ()) :
    (View.ofSource s).subgraphs.map (·.span) = s.blocks blockRules ↔
      ∀ line ∈ s.lines, SubgraphHeader.IsUniform line :=
  ⟨fun h _ => isUniform_of_spans_eq_blocks hdeclaration hbalance h,
    spans_eq_blocks hdeclaration hbalance⟩

/-- Headers with an id, a title in brackets and a title alone, one inside of the other. -/
theorem spans_eq_blocks_iff_nested :
    let s : Source := .ofLines (["flowchart TD", "subgraph S [Outer]", "subgraph \"In ner\"", "A",
      "subgraph ß", "end;", "end", "end"].map String.toList)
    s.declarationOf? .flowchart = some 0 ∧ s.checkBalance blockRules = .ok () ∧
      (View.ofSource s).subgraphs.map (·.span) = s.blocks blockRules := by
  intro s
  have hdeclaration : s.declarationOf? .flowchart = some 0 := by decide +kernel
  have hbalance : s.checkBalance blockRules = .ok () := rfl
  have hlines : ∀ line ∈ s.lines, SubgraphHeader.IsUniform line := by decide +kernel
  exact ⟨hdeclaration, hbalance, (spans_eq_blocks_iff hdeclaration hbalance).2 hlines⟩

/-- A tab behind the word makes a header that opens no block. -/
theorem spans_ne_blocks_of_tab :
    ¬∀ s : Source, s.declarationOf? .flowchart = some 0 → s.checkBalance blockRules = .ok () →
      (View.ofSource s).subgraphs.map (·.span) = s.blocks blockRules := by
  intro h
  have := h (.ofLines (["flowchart TD", "subgraph\tS", "A"].map String.toList)) (by decide +kernel) rfl
  exact absurd this (by decide +kernel)

end View

end DiagramEditor.Flowchart
