import DiagramEditor.Proofs.Edit.Batch
import DiagramEditor.Proofs.Edit.Flowchart.Duplicate
import DiagramEditor.Proofs.Edit.Flowchart.Flat
import DiagramEditor.Proofs.Edit.Flowchart.NewIds
import DiagramEditor.Proofs.Flowchart.Twice

/-!
# The copy of a subgraph

Every line of the block says in the copy what it said, about the new ids (`isRenamed_copyLine`), and at
the end stand the directives from outside of the block for the ids that have new ones
(`writeCopy_eq_ok`).
-/

namespace DiagramEditor.Edit.Flowchart

open DiagramEditor.Flowchart Source Text
open NodeToken (IsIdent)

variable {s s' s₀ : Source} {front body : List Text} {line : Text} {map : Renaming} {span : BlockSpan}
  {g : SubgraphRecord} {v : View}

/-! ## Lines -/

/-- A line of the block says of the new ids what it said of the old ones. A header is written anew, so
its id has to be one that can be read. -/
theorem isRenamed_copyLine (hmap : GivesIds map)
    (hheader : ∀ h, SubgraphHeader.ofLine? line = some h → IsIdent (renameId map h.id)) :
    Statement.IsRenamed map (.ofLine line) (.ofLine (copyLine map line)) := by
  rw [copyLine]
  split
  · next h hread =>
    obtain ⟨header, hnew, hid, hlabel⟩ := SubgraphHeader.ofLine?_render (isBlank_indent line)
      (hheader h hread) (SubgraphHeader.not_infix_label hread)
    rw [renameId] at hnew
    rw [Statement.ofLine_of_header hread, Statement.ofLine_of_header hnew]
    exact .subgraphOpen hid hlabel
  · next hread => exact Statement.isRenamed_renameIds hmap hread

theorem forall₂_copyLine (hmap : GivesIds map) {lines : List Text}
    (hheaders : ∀ id ∈ (lines.map Statement.ofLine).filterMap Statement.subgraph?,
      (map.lookup id).isSome = true) :
    List.Forall₂ (Statement.IsRenamed map) (lines.map Statement.ofLine)
      ((lines.map (copyLine map)).map Statement.ofLine) := by
  rw [List.forall₂_map_left_iff, List.map_map, List.forall₂_map_right_iff, List.forall₂_same]
  refine fun text htext => isRenamed_copyLine hmap fun h hread => ?_
  have hsome := hheaders h.id (List.mem_filterMap.2
    ⟨_, List.mem_map_of_mem htext, by rw [Statement.ofLine_of_header hread]; rfl⟩)
  obtain ⟨new, hnew⟩ := Option.isSome_iff_exists.1 hsome
  rw [renameId, hnew]
  exact (hmap _ (mem_of_lookup_eq_some hnew)).1

/-! ## Directives -/

/-- The style directives for the new ids. -/
def styleCopies (map : Renaming) (ds : List (Nat × NodeStyle)) : List NodeStyle :=
  ds.filterMap fun p => (map.lookup p.2.target).map fun new => { p.2 with target := new }

/-- The class directives for the new ids. -/
def classCopies (map : Renaming) (ds : List (Nat × ClassUse)) : List ClassUse :=
  (ds.map fun p => { p.2 with ids := p.2.ids.filterMap fun id => map.lookup id }).filter
    fun d => d.ids ≠ []

/-- The source goes on with lines that say this. -/
def GoesOnWith (sts : List Statement) (s s' : Source) : Prop :=
  ∃ tail : List Text, s'.lines = s.lines ++ tail ∧ tail.map Statement.ofLine = sts

theorem GoesOnWith.refl (s : Source) : GoesOnWith [] s s :=
  ⟨[], (List.append_nil _).symm, rfl⟩

theorem GoesOnWith.trans {sts more : List Statement} (h : GoesOnWith sts s₀ s)
    (h' : GoesOnWith more s s') : GoesOnWith (sts ++ more) s₀ s' := by
  obtain ⟨tail, hlines, htail⟩ := h
  obtain ⟨tail', hlines', htail'⟩ := h'
  exact ⟨tail ++ tail', by rw [hlines', hlines, List.append_assoc],
    by rw [List.map_append, htail, htail']⟩

theorem GoesOnWith.pushLine {text : Text} {st : Statement} (h : Statement.ofLine text = st)
    (s : Source) : GoesOnWith [st] s (s.pushLine text) :=
  ⟨[text], rfl, by rw [List.map_singleton, h]⟩

/-- What every step writes, one behind the other. -/
theorem goesOnWith_foldlM {α : Type} {f : Source → α → Except EditError Source}
    {out : α → List Statement} {l : List α}
    (hstep : ∀ p ∈ l, ∀ s s', f s p = .ok s' → GoesOnWith (out p) s s')
    (hok : l.foldlM f s = .ok s') : GoesOnWith (l.flatMap out) s s' := by
  induction l generalizing s with
  | nil =>
    cases hok
    exact .refl _
  | cons p l ih =>
    rw [List.foldlM_cons] at hok
    obtain ⟨s₁, hfirst, hok⟩ := bind_eq_ok.1 hok
    obtain ⟨hp, hl⟩ := List.forall_mem_cons.1 hstep
    exact (hp s s₁ hfirst).trans (ih hl hok)

/-- A style directive that was read is written for a new id, unless one of its values ends in a
semicolon. -/
theorem goesOnWith_copyStyle {i : Nat} {d : NodeStyle} {text : Text} (hmap : GivesIds map)
    (hread : NodeStyle.ofLine? text = some d)
    (hsemicolon : (map.lookup d.target).isSome = true →
      ∀ q ∈ d.properties, q.2.getLast? ≠ some ';')
    (hok : copyStyle map span s (i, d) = .ok s') :
    GoesOnWith ((styleCopies map [(i, d)]).map .nodeStyle) s s' := by
  obtain ⟨after, -, -, hproperties⟩ := NodeStyle.ofLine?_eq_some_iff.1 hread
  obtain ⟨target, properties⟩ := d
  obtain rfl : properties = _ := hproperties
  rw [copyStyle] at hok
  cases hlookup : map.lookup target with
  | none =>
    have hnone : styleCopies map [(i, ⟨target, Properties.ofText (trim after)⟩)] = [] := by
      simp [styleCopies, hlookup]
    simp only [hlookup] at hok
    cases hok
    rw [hnone]
    exact .refl s
  | some new =>
    have hsome : styleCopies map [(i, ⟨target, Properties.ofText (trim after)⟩)] =
        [⟨new, Properties.ofText (trim after)⟩] := by
      simp [styleCopies, hlookup]
    simp only [hlookup] at hok hsemicolon
    obtain ⟨text', -, hok⟩ := bind_eq_ok.1 hok
    cases hok
    rw [hsome]
    exact .pushLine (ofLine_nodeStyle_render (isBlank_indent text')
      (hmap _ (mem_of_lookup_eq_some hlookup)).1 (hsemicolon rfl)) s

/-- A class directive that was read is written for the new ids. -/
theorem goesOnWith_copyClass {p : Nat × ClassUse} {text : Text} (hmap : GivesIds map)
    (hread : ClassUse.ofLine? text = some p.2) (hok : copyClass map span s p = .ok s') :
    GoesOnWith ((classCopies map [p]).map .classUse) s s' := by
  rw [copyClass] at hok
  by_cases hnil : (p.2.ids.filterMap fun id => map.lookup id) = []
  · simp only [hnil, List.isEmpty_nil, if_true] at hok
    cases hok
    rw [classCopies, List.map_singleton, hnil]
    exact .refl s
  · rw [if_neg (by simpa using hnil)] at hok
    obtain ⟨text', -, hok⟩ := bind_eq_ok.1 hok
    cases hok
    obtain ⟨after, -, -, -, hname, -⟩ := ClassUse.ofLine?_eq_some_iff.1 hread
    rw [classCopies, List.map_singleton, List.filter_cons_of_pos (by simpa using hnil)]
    refine .pushLine (ofLine_classUse_render (isBlank_indent text') hnil (fun id hid => ?_) hname) s
    obtain ⟨old, -, hlookup⟩ := List.mem_filterMap.1 hid
    exact (hmap _ (mem_of_lookup_eq_some hlookup)).1

theorem flatMap_styleCopies (ds : List (Nat × NodeStyle)) :
    (ds.flatMap fun p => (styleCopies map [p]).map Statement.nodeStyle) =
      (styleCopies map ds).map .nodeStyle := by
  induction ds with
  | nil => rfl
  | cons p ds ih =>
    rw [List.flatMap_cons, ih, ← List.map_append]
    congr 1
    exact (List.filterMap_append ..).symm

theorem flatMap_classCopies (ds : List (Nat × ClassUse)) :
    (ds.flatMap fun p => (classCopies map [p]).map Statement.classUse) =
      (classCopies map ds).map .classUse := by
  induction ds with
  | nil => rfl
  | cons p ds ih =>
    rw [List.flatMap_cons, ih, ← List.map_append]
    congr 1
    rw [classCopies, classCopies, ← List.filter_append, ← List.map_append]
    rfl

/-! ## The block and the end -/

/-- What stands outside of the block. -/
def outside {α : Type} (span : BlockSpan) (ds : List (Nat × α)) : List (Nat × α) :=
  ds.filter fun p => !span.contains p.1

/-- The style directives outside of the block for ids that get new ones are read back as they are
written: semicolons at the end of a directive are no part of its last value. -/
def StylesReadBack (span : BlockSpan) (v : View) : Prop :=
  ∀ p ∈ outside span v.styles, p.2.target ∈ Renaming.domain v span →
    ∀ q ∈ p.2.properties, q.2.getLast? ≠ some ';'

instance (span : BlockSpan) (v : View) : Decidable (StylesReadBack span v) :=
  inferInstanceAs (Decidable (∀ p ∈ _, _ → ∀ q ∈ _, _))

/-- What the copies of the directives say. -/
def copiedDirectives (map : Renaming) (span : BlockSpan) (v : View) : List Statement :=
  (styleCopies map (outside span v.styles)).map .nodeStyle ++
    (classCopies map (outside span v.classes)).map .classUse

theorem isDirective_of_mem_copiedDirectives {st : Statement}
    (h : st ∈ copiedDirectives map span v) : st.IsDirective := by
  rcases List.mem_append.1 h with h | h <;>
  · obtain ⟨d, -, rfl⟩ := List.mem_map.1 h
    trivial

/-- The copies of one kind are found among all of them. -/
theorem filterMap_copiedDirectives : (copiedDirectives map span v).filterMap Statement.nodeStyle? =
      styleCopies map (outside span v.styles) ∧
    (copiedDirectives map span v).filterMap Statement.classUse? =
      classCopies map (outside span v.classes) := by
  rw [copiedDirectives]
  simp only [List.filterMap_append, List.filterMap_map]
  refine ⟨?_, ?_⟩
  · exact (congrArg₂ _ List.filterMap_some (List.filterMap_none _)).trans (List.append_nil _)
  · exact (congrArg₂ _ (List.filterMap_none _) List.filterMap_some).trans (List.nil_append _)

/-- A directive of the view was read from a line. -/
theorem exists_read_of_mem_found {α : Type} {get : Statement → Option α} {p : Nat × α}
    (h : p ∈ found get (statements s)) : ∃ text, get (Statement.ofLine text) = some p.2 := by
  obtain ⟨st, hst, hget⟩ := mem_found.1 (show (p.1, p.2) ∈ _ from h)
  obtain ⟨text, -, rfl⟩ := mem_statements.1 hst
  exact ⟨text, hget⟩

theorem nodeStyle?_ofLine {d : NodeStyle} (h : (Statement.ofLine line).nodeStyle? = some d) :
    NodeStyle.ofLine? line = some d := by
  have hreads := Statement.readsFrom_ofLine line
  cases hst : Statement.ofLine line <;> rw [hst] at h hreads <;> cases h
  exact hreads

theorem classUse?_ofLine {d : ClassUse} (h : (Statement.ofLine line).classUse? = some d) :
    ClassUse.ofLine? line = some d := by
  have hreads := Statement.readsFrom_ofLine line
  cases hst : Statement.ofLine line <;> rw [hst] at h hreads <;> cases h
  exact hreads

/-- The copy of a subgraph is written below the block, and the directives for the new ids follow at the
end. -/
theorem writeCopy_eq_ok {e : Edited} (h : IsDeclared .flowchart front line body s₀)
    (hg : g ∈ (View.ofSource s₀).subgraphs)
    (hkeys : map.map Prod.fst = Renaming.domain (View.ofSource s₀) g.span) (hmap : GivesIds map)
    (hstyles : StylesReadBack g.span (View.ofSource s₀))
    (hok : writeCopy g map (View.ofSource s₀) s₀ = .ok e) :
    e.handle = some (.subgraph ((map.lookup g.id).getD [])) ∧
      ∃ before after tail, body = before ++ after ∧
        front.length + 1 + before.length = g.span.stop + 1 ∧
        tail.map Statement.ofLine = copiedDirectives map g.span (View.ofSource s₀) ∧
        IsDeclared .flowchart front line
          (before ++ (s₀.slice g.span.start g.span.length).map (copyLine map) ++ after ++ tail)
          e.source := by
  have hstop := View.lt_stop_of_mem_subgraphs h hg
  obtain ⟨s₁, hinsert, hok⟩ := bind_eq_ok.1 hok
  obtain ⟨s₂, hcopyStyles, hok⟩ := bind_eq_ok.1 hok
  obtain ⟨s₃, hcopyClasses, hok⟩ := bind_eq_ok.1 hok
  cases hok
  obtain ⟨before, after, hbody, hbefore, hdecl⟩ :=
    insertLines_body h (Nat.lt_succ_of_lt hstop) hinsert
  have hstyled : GoesOnWith _ s₁ s₂ := goesOnWith_foldlM (fun p hp s s' hstep => by
    obtain ⟨text, hread⟩ := exists_read_of_mem_found
      (View.styles_ofSource s₀ ▸ (List.mem_filter.1 hp).1)
    refine goesOnWith_copyStyle hmap (nodeStyle?_ofLine hread) (fun hsome => hstyles p hp ?_) hstep
    rwa [← hkeys, ← Renaming.lookup_isSome_iff]) hcopyStyles
  have hclassed : GoesOnWith _ s₂ s₃ := goesOnWith_foldlM (fun p hp s s' hstep => by
    obtain ⟨text, hread⟩ := exists_read_of_mem_found
      (View.classes_ofSource s₀ ▸ (List.mem_filter.1 hp).1)
    exact goesOnWith_copyClass hmap (classUse?_ofLine hread) hstep) hcopyClasses
  obtain ⟨tail, hlines, htail⟩ := hstyled.trans hclassed
  rw [flatMap_styleCopies, flatMap_classCopies] at htail
  refine ⟨rfl, before, after, tail, hbody, by omega, htail, hdecl.with_body ?_⟩
  rw [hlines, hdecl.lines, List.append_assoc]
  rfl

/-! ## Two sources -/

/-- The ids with new ones are those of the subgraphs and nodes that the block brings in. -/
theorem mem_domain_iff {first : Nat} {before block after : List Statement} {id : Text}
    (h : HasBlock s span first before block after) :
    id ∈ Renaming.domain (View.ofSource s) span ↔ id ∈ block.filterMap Statement.subgraph? ∨
      id ∉ (View.ofSource s).subgraphIds ∧ id ∈ tokenIds block ∧ id ∉ tokenIds before := by
  rw [Renaming.domain, List.mem_append, h.map_id_subgraphs, List.mem_map]
  refine or_congr_right ⟨?_, ?_⟩
  · rintro ⟨n, hn, rfl⟩
    obtain ⟨hmem, hfirst⟩ := List.mem_filter.1 hn
    exact ⟨View.not_mem_subgraphIds hmem, (h.any_head?_mentions_iff hmem).1 hfirst⟩
  · rintro ⟨hnot, hblock, hbefore⟩
    have hall : id ∈ tokenIds ((statements s).map Prod.snd) := by
      rw [h.map_snd_statements, tokenIds_append, tokenIds_append]
      exact List.mem_append_left _ (List.mem_append_right _ hblock)
    obtain ⟨n, hn⟩ := Option.isSome_iff_exists.1 (View.isSome_node?_iff_tokenIds.2 ⟨hnot, hall⟩)
    obtain ⟨hmem, rfl⟩ := View.node?_eq_some_iff.1 hn
    exact ⟨n, List.mem_filter.2 ⟨hmem, (h.any_head?_mentions_iff hmem).2 ⟨hblock, hbefore⟩⟩, rfl⟩

/-- The source with the copy has the block twice. -/
theorem exists_doubles {e : Edited} (h : IsDeclared .flowchart front line body s)
    (hbalance : s.checkBalance blockRules = .ok ())
    (hlines : ∀ text ∈ s.lines, SubgraphHeader.IsUniform text)
    (hnodup : (View.ofSource s).subgraphIds.Nodup) (hg : g ∈ (View.ofSource s).subgraphs)
    (hkeys : map.map Prod.fst = Renaming.domain (View.ofSource s) g.span)
    (hfresh : map.IsFresh (View.ofSource s))
    (hstyles : StylesReadBack g.span (View.ofSource s))
    (hok : writeCopy g map (View.ofSource s) s = .ok e) :
    ∃ first before block copy after tail,
      Doubles map s e.source g.span first before block copy after
        (copiedDirectives map g.span (View.ofSource s)) ∧
      first + before.length + block.length + after.length = s.length ∧
      e.source.lines = s.lines.take (g.span.stop + 1) ++
        (s.slice g.span.start g.span.length).map (copyLine map) ++
        s.lines.drop (g.span.stop + 1) ++ tail := by
  obtain ⟨before, opener, block, after, hbody, hstart, hstop, hopener, hcloses⟩ :=
    View.exists_extent h hbalance hlines hg
  obtain ⟨header, hheader⟩ := Option.isSome_iff_exists.1 hopener
  have hblock : HasBlock s g.span (front.length + 1) (before.map Statement.ofLine)
      ((opener :: block).map Statement.ofLine) (after.map Statement.ofLine) := by
    refine ⟨?_, ?_, ?_, header, block.map Statement.ofLine, ?_, hcloses⟩
    · rw [statements_eq_numberFrom h, hbody]
      simp
    · rw [hstart, List.length_map]
    · simp only [List.length_map, List.length_cons]
      omega
    · rw [List.map_cons, Statement.ofLine_of_header hheader]
  obtain ⟨-, upper, lower, tail, hsplit, hupper, htail, hdecl⟩ :=
    writeCopy_eq_ok h hg hkeys hfresh.givesIds hstyles hok
  -- The copy is written where the block ends.
  obtain ⟨rfl, rfl⟩ : upper = before ++ opener :: block ∧ lower = after := by
    refine List.append_inj ?_ ?_
    · rw [← hsplit, hbody, List.append_assoc]
      rfl
    · rw [List.length_append, List.length_cons]
      omega
  have hsource : s.lines = front ++ line :: before ++ opener :: block ++ lower := by
    rw [h.lines, hsplit]
    simp
  have hlength : (opener :: block).length = g.span.length := by
    rw [← hblock.length_eq, List.length_map]
  have hslice : s.slice g.span.start g.span.length = opener :: block := by
    rw [slice, hsource, List.append_assoc, List.drop_left' (by simp [hstart]; omega),
      List.take_left' hlength]
  have hupto : (front ++ line :: before ++ opener :: block).length = g.span.stop + 1 := by
    simp only [List.length_append, List.length_cons]
    omega
  rw [hslice] at hdecl
  have hheaders : ∀ id ∈ ((opener :: block).map Statement.ofLine).filterMap Statement.subgraph?,
      (map.lookup id).isSome = true := fun id hid => by
    rw [Renaming.lookup_isSome_iff, hkeys, mem_domain_iff hblock]
    exact .inl hid
  refine ⟨front.length + 1, before.map Statement.ofLine, (opener :: block).map Statement.ofLine,
    ((opener :: block).map (copyLine map)).map Statement.ofLine, lower.map Statement.ofLine, tail,
    { hblock with
      new := ?_
      start_eq' := ?_
      openBlocks := List.map_eq_nil_iff.1 (follows_statements h hbalance hlines).openBlocks
      nodup := hnodup
      renamed := forall₂_copyLine hfresh.givesIds hheaders
      directives := fun st hst => isDirective_of_mem_copiedDirectives hst
      isSome_lookup := fun id => by
        rw [Renaming.lookup_isSome_iff, hkeys, mem_domain_iff hblock]
      fresh := hfresh.notMem
      nodup_new := hfresh.nodup }, ?_, ?_⟩
  · rw [statements_eq_numberFrom hdecl, ← htail]
    simp
  · rw [Reader.start, Reader.start, hdecl.declarationOf?, h.declarationOf?]
  · rw [Source.length, hsource]
    simp only [List.length_append, List.length_cons, List.length_map]
    omega
  · rw [hdecl.lines, hslice, hsource, List.take_left' hupto, List.drop_left' hupto]
    simp

/-- Directives stay where their lines stand now, those of the block come once more with its lines, and
those at the end are the copies. -/
structure CopiesDirectives {α : Type} (span : BlockSpan) (length : Nat) (renamed : α → α)
    (copies : List α) (ds ds' : List (Nat × α)) : Prop where
  kept : ∀ p ∈ ds, (shifted span.stop span.length p.1, p.2) ∈ ds'
  inside : ∀ p ∈ ds, span.contains p.1 = true → (p.1 + span.length, renamed p.2) ∈ ds'
  behind : (ds'.filter fun q => length + span.length ≤ q.1).map Prod.snd = copies

/-- Right below the block of a subgraph the source has it once more, with new ids for its subgraphs and
the nodes that are first mentioned in it. -/
structure IsCopied (map : Renaming) (g : SubgraphRecord) (s s' : Source) : Prop where
  lines : ∃ tail, s'.lines = s.lines.take (g.span.stop + 1) ++
    (s.slice g.span.start g.span.length).map (copyLine map) ++ s.lines.drop (g.span.stop + 1) ++ tail
  domain : map.map Prod.fst = Renaming.domain (View.ofSource s) g.span
  nodup : (map.map Prod.fst).Nodup
  injective : (map.map Prod.snd).Nodup
  fresh : ∀ p ∈ map, p.2 ∉ (View.ofSource s).ids
  subgraphs : (View.ofSource s').subgraphs =
    ((View.ofSource s).subgraphs.filter fun c => c.span.start ≤ g.span.stop).map
        (.moved (shifted g.span.stop g.span.length)) ++
      ((View.ofSource s).subgraphs.filter fun c => g.span.contains c.span.start).map
        (.copied (renameId map) g.span.length) ++
      ((View.ofSource s).subgraphs.filter fun c => g.span.stop < c.span.start).map
        (.moved (shifted g.span.stop g.span.length))
  links : (View.ofSource s').links.map (·.link) =
    ((View.ofSource s).links.filter fun l => l.line ≤ g.span.stop).map (·.link) ++
      (((View.ofSource s).links.filter fun l => g.span.contains l.line).map (·.link)).map
        (.renamed map) ++
      ((View.ofSource s).links.filter fun l => g.span.stop < l.line).map (·.link)
  nodes : ∀ id, ((View.ofSource s').node? id).isSome = true ↔
    ((View.ofSource s).node? id).isSome = true ∨
      ∃ old, ((View.ofSource s).node? old).isSome = true ∧ map.lookup old = some id
  kept : ∀ n ∈ (View.ofSource s).nodes, ∀ n' ∈ (View.ofSource s').nodes, n'.id = n.id →
    n'.definition = n.definition ∧ n'.subgraph = n.subgraph
  copied : ∀ n ∈ (View.ofSource s).nodes, ∀ n' ∈ (View.ofSource s').nodes,
    map.lookup n.id = some n'.id → n'.definition = View.richest
        ((((statements s).filter fun p => g.span.contains p.1).map Prod.snd).flatMap
          (Statement.definitionsOf n.id)) ∧
      n'.subgraph = n.subgraph.map (renameId map)
  styles : CopiesDirectives g.span s.length
    (fun d : NodeStyle => { d with target := renameId map d.target })
    (styleCopies map (outside g.span (View.ofSource s).styles))
    (View.ofSource s).styles (View.ofSource s').styles
  classes : CopiesDirectives g.span s.length
    (fun d : ClassUse => { d with ids := d.ids.map (renameId map) })
    (classCopies map (outside g.span (View.ofSource s).classes))
    (View.ofSource s).classes (View.ofSource s').classes

/-- What the old source has of some directives, the new one has twice. -/
theorem copiesDirectives {first : Nat} {before block copy after tail : List Statement}
    (h : Doubles map s s' span first before block copy after tail)
    (hlength : first + before.length + block.length + after.length = s.length) {α : Type}
    (get : Statement → Option α) (renamed : α → α)
    (hrenamed : ∀ st st' a, Statement.IsRenamed map st st' → get st = some a →
      get st' = some (renamed a)) :
    CopiesDirectives span s.length renamed (tail.filterMap get) (found get (statements s))
      (found get (statements s')) where
  kept p hp := by
    refine h.mem_found_old (f := shifted span.stop span.length) (fun j hj => ?_) (fun j hj => ?_) hp
    · exact if_neg (Nat.not_lt.2 hj)
    · rw [h.length_eq]
      exact if_pos hj
  inside p hp hcontains := by
    rw [← h.length_eq]
    exact h.mem_found_copy (fun st st' hst => hrenamed st st' p.2 hst) hp hcontains
  behind := by
    rw [h.found_tail]
    rw [← hlength, ← h.length_eq]
    omega

theorem isCopied_writeCopy {e : Edited} (h : IsDeclared .flowchart front line body s)
    (hbalance : s.checkBalance blockRules = .ok ())
    (hlines : ∀ text ∈ s.lines, SubgraphHeader.IsUniform text)
    (hnodup : (View.ofSource s).subgraphIds.Nodup) (hg : g ∈ (View.ofSource s).subgraphs)
    (hkeys : map.map Prod.fst = Renaming.domain (View.ofSource s) g.span)
    (hfresh : map.IsFresh (View.ofSource s))
    (hstyles : StylesReadBack g.span (View.ofSource s))
    (hok : writeCopy g map (View.ofSource s) s = .ok e) : IsCopied map g s e.source := by
  obtain ⟨first, before, block, copy, after, tail, hdoubles, hlength, hsource⟩ :=
    exists_doubles h hbalance hlines hnodup hg hkeys hfresh hstyles hok
  have hblock : ((statements s).filter fun p => g.span.contains p.1).map Prod.snd = block := by
    rw [hdoubles.filter_statements.2.1, map_snd_numberFrom]
  have hfront : ∀ j ≤ g.span.stop, shifted g.span.stop g.span.length j = j := fun j hj =>
    if_neg (Nat.not_lt.2 hj)
  have hbehind : ∀ j, g.span.stop < j →
      shifted g.span.stop g.span.length j = j + block.length := fun j hj => by
    rw [hdoubles.length_eq]
    exact if_pos hj
  have hsubgraphs := hdoubles.subgraphs_eq hfront hbehind
  rw [hdoubles.length_eq] at hsubgraphs
  have hstyled := copiesDirectives hdoubles hlength Statement.nodeStyle?
    (fun d => { d with target := renameId map d.target }) fun _ _ _ hst hget => hst.nodeStyle? hget
  have hclassed := copiesDirectives hdoubles hlength Statement.classUse?
    (fun d => { d with ids := d.ids.map (renameId map) }) fun _ _ _ hst hget => hst.classUse? hget
  rw [filterMap_copiedDirectives.1, ← View.styles_ofSource, ← View.styles_ofSource] at hstyled
  rw [filterMap_copiedDirectives.2, ← View.classes_ofSource, ← View.classes_ofSource] at hclassed
  exact {
    lines := ⟨tail, hsource⟩
    domain := hkeys
    nodup := hkeys ▸ Renaming.nodup_domain hnodup g.span
    injective := hfresh.nodup
    fresh := hfresh.notMem
    subgraphs := hsubgraphs
    links := hdoubles.links_eq
    nodes := fun _ => hdoubles.isSome_node?_iff
    kept := fun n hn n' hn' hid =>
      ⟨hdoubles.definition_eq_of_old hn hn' hid, hdoubles.subgraph_eq_of_old hn hn' hid⟩
    copied := fun n hn n' hn' hlookup =>
      ⟨hblock ▸ hdoubles.definition_eq_of_new hn hn' hlookup,
        hdoubles.subgraph_eq_of_new hn hn' hlookup⟩
    styles := hstyled
    classes := hclassed }

variable {id : Text} {ids : IdAllocator} {earlier : Option Handle} {e : Edited}

/-- The copy of a subgraph in a balanced source in which the lines that read as headers are those that
open a block, and no two subgraphs have the same id. There have to be serial numbers left for the new
ids. -/
theorem applyOps_duplicateSubgraph (hkind : s.kind? = some .flowchart)
    (hbalance : s.checkBalance blockRules = .ok ())
    (hlines : ∀ text ∈ s.lines,
      isSubgraphOpen (trim text) = (SubgraphHeader.ofLine? text).isSome)
    (hnodup : ((View.ofSource s).subgraphs.map (·.id)).Nodup)
    (hstyles : ∀ g ∈ (View.ofSource s).subgraphs, g.id = id → StylesReadBack g.span (View.ofSource s))
    (hroom : 2 * (View.ofSource s).ids.length < Fresh.lastSerial)
    (hserial : (applyOps .flowchart [.flowchart (.duplicateSubgraph id)] ⟨s, earlier⟩ ids).2.subgraphs <
      Fresh.lastSerial)
    (hok : (applyOps .flowchart [.flowchart (.duplicateSubgraph id)] ⟨s, earlier⟩ ids).1 = .ok e) :
    ∃ g map new, (View.ofSource s).subgraph? id = some g ∧ IsCopied map g s e.source ∧
      map.lookup id = some new ∧ e.handle = some (.subgraph new) ∧ (s.IsFlat → e.source.IsFlat) := by
  obtain ⟨front, line, body, h⟩ := exists_isDeclared hkind
  obtain ⟨next, hop, rfl, -⟩ := applyOps_singleton_eq_ok hok
  rw [applyOp, apply, duplicateSubgraph] at hop
  simp only [] at hop
  split at hop
  · cases hop
  · next g hrequired =>
    have hg := requireSubgraph_eq_ok hrequired
    have hmem := List.mem_of_find?_eq_some hg
    have hid : g.id = id := by simpa using List.find?_some hg
    obtain ⟨hcopy, hids⟩ := Prod.mk.inj hop
    rw [← hids] at hserial
    obtain ⟨hkeys, hfresh⟩ := Renaming.ofBlock_eq hnodup hroom hserial
    obtain ⟨hhandle, -⟩ := writeCopy_eq_ok h hmem hkeys hfresh.givesIds (hstyles g hmem hid) hcopy
    have hcopied := isCopied_writeCopy h hbalance
      (fun text htext => SubgraphHeader.isUniform_iff.2 (hlines text htext)) hnodup hmem hkeys hfresh
      (hstyles g hmem hid) hcopy
    have hsome : ((Renaming.ofBlock (View.ofSource s) g.span ids).1.lookup id).isSome = true := by
      rw [Renaming.lookup_isSome_iff, hkeys, ← hid]
      exact Renaming.id_mem_domain hmem (View.spansWithin_ofSource s g hmem).2.1
    obtain ⟨new, hnew⟩ := Option.isSome_iff_exists.1 hsome
    rw [hid, hnew] at hhandle
    refine ⟨g, _, new, hg, hcopied, hnew, ?_, fun hs => ?_⟩
    · rw [hhandle]
      rfl
    · have hflat : LeavesFlat (duplicateSubgraph id s ids).1 := duplicateSubgraph_isFlat hs ids
      refine hflat next ?_
      rw [duplicateSubgraph, hrequired]
      exact hcopy

/-- A block with a subgraph inside and a link to a node in front of it, and directives about its node. -/
theorem applyOps_duplicateSubgraph_nested :
    let s : Source := .ofText
      "graph\nZ\nsubgraph S\nA[x] --> Z\nsubgraph \"B C\"\nend\nend\nstyle A fill:red\nclass A,Z k".toList
    ∃ e g map new,
      (applyOps .flowchart [.flowchart (.duplicateSubgraph ['S'])] ⟨s, none⟩ {}).1 = .ok e ∧
        (View.ofSource s).subgraph? ['S'] = some g ∧ IsCopied map g s e.source ∧
        map.lookup ['S'] = some new ∧ e.handle = some (.subgraph new) ∧
        (s.IsFlat → e.source.IsFlat) := by
  intro s
  have hsome : (applyOps .flowchart [.flowchart (.duplicateSubgraph ['S'])] ⟨s, none⟩ {}).1.isOk =
      true := by decide +kernel
  cases hok : (applyOps .flowchart [.flowchart (.duplicateSubgraph ['S'])] ⟨s, none⟩ {}).1 with
  | error err =>
    rw [hok] at hsome
    cases hsome
  | ok e =>
    obtain ⟨g, map, new, hcopied⟩ := applyOps_duplicateSubgraph (by decide +kernel)
      (by decide +kernel) (by decide +kernel) (by decide +kernel) (by decide +kernel)
      (by decide +kernel) (by decide +kernel) hok
    exact ⟨e, g, map, new, rfl, hcopied⟩

/-- The last semicolon ends the directive, so the copy has another value. -/
theorem not_applyOps_duplicateSubgraph :
    let s : Source := .ofText "flowchart TD\nsubgraph S\nA\nend\nstyle A fill:red; ;".toList
    let s' : Source := .ofText
      "flowchart TD\nsubgraph S\nA\nend\nsubgraph S_1\nA_1\nend\nstyle A fill:red; ;\nstyle A_1 fill:red;".toList
    (applyOps .flowchart [.flowchart (.duplicateSubgraph ['S'])] ⟨s, none⟩ {}).1 =
        .ok ⟨s', some (.subgraph "S_1".toList)⟩ ∧
      (View.ofSource s).styles.map (·.2) = [⟨['A'], [("fill".toList, "red;".toList)]⟩] ∧
      (View.ofSource s').styles.map (·.2) = [⟨['A'], [("fill".toList, "red;".toList)]⟩,
        ⟨"A_1".toList, [("fill".toList, "red".toList)]⟩] := by
  decide +kernel

end DiagramEditor.Edit.Flowchart
