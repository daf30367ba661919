import DiagramEditor.Proofs.Flowchart.Inlay
import DiagramEditor.Proofs.Flowchart.Renaming
import DiagramEditor.Proofs.Flowchart.Richest

/-!
# A flowchart with a block written twice

A source and one that goes on, behind a block, with the same block about other ids (`Doubles`). The ids
of the subgraphs that start in the block and of the nodes that are first mentioned in it have new ones,
which the first source does not use, and all other ids stay. Everything of the first source is in the
second one as it was, and the block has an image there (`Doubles.subgraphs`, `Doubles.isSome_node?_iff`,
`Doubles.definition_eq_of_old`, `Doubles.definition_eq_of_new` and so on).
-/

namespace DiagramEditor.Flowchart

open Source
open SubgraphRecord (moved copied)

variable {map : List (Text × Text)} {st st' : Statement} {sts sts' : List Statement} {id new x y : Text}

/-! ## Statements about other ids -/

namespace Statement

theorem IsRenamed.isAlike (h : IsRenamed map st st') : IsAlike (renameId map) st st' := by
  cases h with
  | silent => exact ⟨rfl, (fun _ hst => by cases hst), rfl⟩
  | blockEnd => exact ⟨rfl, (fun _ hst => by cases hst), rfl⟩
  | link l => exact ⟨rfl, (fun _ hst => by cases hst), rfl⟩
  | node n => exact ⟨rfl, (fun _ hst => by cases hst), rfl⟩
  | @subgraphOpen h h' hid hlabel =>
    refine ⟨rfl, fun header hst => ?_, rfl⟩
    cases hst
    exact ⟨h', rfl, hid, hlabel⟩
  | directive hst hst' =>
    refine ⟨hst'.eq_nil.2.2.2.trans hst.eq_nil.2.2.2.symm, ?_, ?_⟩
    · rintro _ rfl
      exact hst.elim
    · rw [hst.eq_nil.1, hst'.eq_nil.1]
      rfl

theorem IsRenamed.tokens (h : IsRenamed map st st') :
    st'.tokens = st.tokens.map (NodeToken.renamed map) := by
  cases h with
  | directive hst hst' =>
    rw [hst.eq_nil.1, hst'.eq_nil.1]
    rfl
  | _ => rfl

theorem IsRenamed.link? (h : IsRenamed map st st') :
    st'.link? = st.link?.map (LinkLine.renamed map) := by
  cases h with
  | directive hst hst' =>
    rw [hst.eq_nil.2.1, hst'.eq_nil.2.1]
    rfl
  | _ => rfl

theorem IsRenamed.subgraph? (h : IsRenamed map st st') :
    st'.subgraph? = st.subgraph?.map (renameId map) := by
  cases h with
  | directive hst hst' =>
    rw [hst.eq_nil.2.2.1, hst'.eq_nil.2.2.1]
    rfl
  | subgraphOpen hid => exact congrArg some hid
  | _ => rfl

theorem IsRenamed.nodeStyle? {d : NodeStyle} (h : IsRenamed map st st')
    (hget : st.nodeStyle? = some d) :
    st'.nodeStyle? = some { d with target := renameId map d.target } := by
  cases h with
  | directive _ _ hstyle _ =>
    cases st <;> cases hget
    rw [hstyle d rfl]
    rfl
  | _ => cases hget

theorem IsRenamed.classUse? {d : ClassUse} (h : IsRenamed map st st')
    (hget : st.classUse? = some d) :
    st'.classUse? = some { d with ids := d.ids.map (renameId map) } := by
  cases h with
  | directive _ _ _ hclass =>
    cases st <;> cases hget
    rw [hclass d rfl]
    rfl
  | _ => cases hget

end Statement

theorem tokenIds_renamed (h : List.Forall₂ (Statement.IsRenamed map) sts sts') :
    tokenIds sts' = (tokenIds sts).map (renameId map) := by
  induction h with
  | nil => rfl
  | @cons st st' sts sts' hst _ ih =>
    have hfirst : st'.tokens.map (·.id) = (st.tokens.map (·.id)).map (renameId map) := by
      rw [hst.tokens, List.map_map, List.map_map]
      rfl
    rw [tokenIds, tokenIds, List.flatMap_cons, List.flatMap_cons, List.map_append, List.map_append,
      List.map_append, hfirst, ← tokenIds, ← tokenIds, ih]

/-- What is found in the statements is found about the new ids. -/
theorem filterMap_renamed {α : Type} {get : Statement → Option α} {f : α → α}
    (h : List.Forall₂ (Statement.IsRenamed map) sts sts')
    (hget : ∀ st st', Statement.IsRenamed map st st' → get st' = (get st).map f) :
    sts'.filterMap get = (sts.filterMap get).map f := by
  induction h with
  | nil => rfl
  | @cons st st' _ _ hst _ ih =>
    rw [List.filterMap_cons, List.filterMap_cons, hget st st' hst, ih]
    cases get st <;> rfl

/-- The definitions in a block about other ids are those of the nodes with these ids. -/
theorem flatMap_definitionsOf_renamed (h : List.Forall₂ (Statement.IsRenamed map) sts sts')
    (id : Text) : sts'.flatMap (Statement.definitionsOf id) =
      ((sts.flatMap Statement.tokens).filter fun t => renameId map t.id = id).filterMap
        (·.definition) := by
  induction h with
  | nil => rfl
  | @cons st st' _ _ hst _ ih =>
    rw [List.flatMap_cons, List.flatMap_cons, List.filter_append, List.filterMap_append, ih,
      Statement.definitionsOf, hst.tokens, List.filter_map, List.filterMap_map]
    rfl

theorem View.mem_ids_of_mem_subgraphIds {v : View} (hx : x ∈ v.subgraphIds) : x ∈ v.ids :=
  List.mem_append_right _ hx

/-- Directives change nothing about subgraphs and places. -/
theorem Reader.readAll_directives (r : Reader) (sts : List (Nat × Statement))
    (hsts : ∀ p ∈ sts, p.2.IsDirective) :
    (r.readAll sts).view.subgraphs = r.view.subgraphs ∧ (r.readAll sts).openBlocks = r.openBlocks ∧
      r.places sts = [] := by
  induction sts generalizing r with
  | nil => exact ⟨rfl, rfl, rfl⟩
  | cons p sts ih =>
    obtain ⟨line, st⟩ := p
    obtain ⟨hst, hsts⟩ := List.forall_mem_cons.1 hsts
    obtain ⟨htokens, -, -, hstay⟩ := hst.eq_nil
    obtain ⟨hsubgraphs, hopen, hplaces⟩ := ih (r.step line st) hsts
    rw [Reader.readAll_cons]
    refine ⟨hsubgraphs.trans ?_, hopen.trans ?_, ?_⟩
    · rw [Reader.subgraphs_step_of_stay hstay, htokens]
      exact r.alterInnermost_id
    · rw [Reader.openBlocks_step, hstay]
      rfl
    · rw [Reader.places, htokens, hplaces]
      rfl

/-- Lines that are read from the start have spans in front of the next line. -/
theorem Reader.stop_lt_of_readAll (s : Source) (first : Nat) (sts : List Statement) :
    ∀ g ∈ ((Reader.start s).readAll (numberFrom first sts)).view.subgraphs,
      g.span.start ≤ g.span.stop ∧ g.span.stop < first + sts.length := by
  have hwithin : ((Reader.start s).readAll (numberFrom first sts)).view.SpansWithin (fun _ => True)
      (first + sts.length) := by
    refine View.SpansWithin.readAll (n := first) (fun g hg => by cases hg) (Nat.le_add_right _ _)
      (pairwise_numberFrom first sts) fun p hp => ⟨trivial, bounds_of_mem_numberFrom hp⟩
  exact fun g hg => (hwithin g hg).2

theorem exists_mem_numberFrom_of_forall₂ {R : Statement → Statement → Prop} {i n : Nat}
    (h : List.Forall₂ R sts sts') (hmem : (i, st) ∈ numberFrom n sts) :
    ∃ st', R st st' ∧ (i, st') ∈ numberFrom n sts' := by
  induction h generalizing n with
  | nil => cases hmem
  | cons hst _ ih =>
    rcases List.mem_cons.1 hmem with heq | hmem
    · obtain ⟨rfl, rfl⟩ := Prod.mk.inj heq
      exact ⟨_, hst, List.mem_cons_self⟩
    · obtain ⟨st', hst', hmem'⟩ := ih hmem
      exact ⟨st', hst', List.mem_cons_of_mem _ hmem'⟩

/-- The subgraph without the members that have one of the ids. -/
def SubgraphRecord.withoutMembers (ids : List Text) (g : SubgraphRecord) : SubgraphRecord :=
  { g with members := g.members.filter fun x => !ids.contains x }

open SubgraphRecord (withoutMembers)

/-- Where no subgraph is open at the end, the view has those that the reader has met. -/
theorem View.subgraphs_of_closed {s : Source}
    (h : ((Reader.start s).readAll (statements s)).openBlocks = []) :
    (View.ofSource s).subgraphs = ((Reader.start s).readAll (statements s)).view.subgraphs.map
      (withoutMembers (View.ofSource s).subgraphIds) := by
  have hids : (View.ofSource s).subgraphIds =
      ((Reader.start s).readAll (statements s)).view.subgraphIds := by
    rw [View.ofSource_eq, View.subgraphIds_finish]
  rw [hids, View.ofSource_eq, Reader.finish, h]
  rfl

/-! ## Two sources -/

/-- Behind a block of the first source, the second one goes on with the block about other ids, and at
its end there are directives. The ids of the subgraphs that start in the block and of the nodes that
are first mentioned in it have new ones. -/
structure Doubles (map : List (Text × Text)) (s s' : Source) (span : BlockSpan) (first : Nat)
    (before block copy after tail : List Statement) : Prop
    extends HasBlock s span first before block after where
  new : statements s' = numberFrom first (before ++ block ++ copy ++ after ++ tail)
  start_eq' : Reader.start s' = Reader.start s
  openBlocks : ((Reader.start s).readAll (statements s)).openBlocks = []
  nodup : (View.ofSource s).subgraphIds.Nodup
  renamed : List.Forall₂ (Statement.IsRenamed map) block copy
  directives : ∀ st ∈ tail, st.IsDirective
  isSome_lookup : ∀ id, (map.lookup id).isSome = true ↔ id ∈ block.filterMap Statement.subgraph? ∨
    id ∉ (View.ofSource s).subgraphIds ∧ id ∈ tokenIds block ∧ id ∉ tokenIds before
  fresh : ∀ p ∈ map, p.2 ∉ (View.ofSource s).ids
  nodup_new : (map.map Prod.snd).Nodup

namespace Doubles

variable {s s' : Source} {span : BlockSpan} {first : Nat}
  {before block copy after tail : List Statement}
  (h : Doubles map s s' span first before block copy after tail)
include h

/-! ### Ids -/

/-- An id with a known image is its own image. -/
theorem renameId_eq_self (hx : renameId map x ∈ (View.ofSource s).ids) : renameId map x = x := by
  rw [renameId] at hx ⊢
  cases hlookup : map.lookup x with
  | none => rfl
  | some new =>
    rw [hlookup] at hx
    exact absurd hx (h.fresh _ (mem_of_lookup_eq_some hlookup))

/-- Different ids keep different images. -/
theorem injOn : Set.InjOn (renameId map) {x | x ∈ (View.ofSource s).ids} := by
  intro x hx y hy heq
  cases hlookup : map.lookup x with
  | none =>
    have hself : renameId map x = x := by rw [renameId, hlookup, Option.getD_none]
    rw [hself] at heq
    rw [heq]
    exact h.renameId_eq_self (heq ▸ hx)
  | some new =>
    have hnew : renameId map x = new := by rw [renameId, hlookup, Option.getD_some]
    have hmem := mem_of_lookup_eq_some hlookup
    rw [hnew] at heq
    cases hlookup' : map.lookup y with
    | none =>
      rw [renameId, hlookup', Option.getD_none] at heq
      exact absurd hy (heq ▸ h.fresh _ hmem)
    | some new' =>
      rw [renameId, hlookup', Option.getD_some] at heq
      have hpair := List.inj_on_of_nodup_map h.nodup_new hmem (mem_of_lookup_eq_some hlookup') heq
      exact congrArg Prod.fst hpair

theorem map_snd_statements' :
    (statements s').map Prod.snd = before ++ block ++ copy ++ after ++ tail := by
  rw [h.new, map_snd_numberFrom]

theorem length_copy : copy.length = block.length :=
  h.renamed.length_eq.symm

theorem statements_split' : statements s' = numberFrom first before ++
    numberFrom (first + before.length) block ++
      numberFrom (first + before.length + block.length) copy ++
      numberFrom (first + before.length + block.length + block.length) after ++
      numberFrom (first + before.length + block.length + block.length + after.length) tail := by
  rw [h.new, numberFrom_append, numberFrom_append, numberFrom_append, numberFrom_append]
  simp only [List.length_append, h.length_copy, Nat.add_assoc]

theorem mem_ids_of_mem_tokenIds (hx : x ∈ tokenIds (before ++ block ++ after)) :
    x ∈ (View.ofSource s).ids := by
  rw [← h.map_snd_statements, tokenIds, ← View.map_snd_mentions] at hx
  obtain ⟨t, ht, rfl⟩ := List.mem_map.1 hx
  obtain ⟨p, hp, rfl⟩ := List.mem_map.1 ht
  exact View.mem_ids_of_mem_mentions hp

theorem subgraphIds_old : (View.ofSource s).subgraphIds =
    (before ++ block ++ after).filterMap Statement.subgraph? := by
  rw [View.subgraphIds_ofSource, h.map_snd_statements]

theorem mem_subgraphIds_of_mem_block (hx : x ∈ block.filterMap Statement.subgraph?) :
    x ∈ (View.ofSource s).subgraphIds := by
  rw [h.subgraphIds_old, List.filterMap_append, List.filterMap_append]
  exact List.mem_append_left _ (List.mem_append_right _ hx)

theorem mem_subgraphIds_new : x ∈ (View.ofSource s').subgraphIds ↔
    x ∈ (View.ofSource s).subgraphIds ∨
      ∃ y ∈ block.filterMap Statement.subgraph?, renameId map y = x := by
  have htail : tail.filterMap Statement.subgraph? = [] :=
    List.filterMap_eq_nil_iff.2 fun st hst => (h.directives st hst).eq_nil.2.2.1
  have hcopy := filterMap_renamed h.renamed fun _ _ hst => hst.subgraph?
  rw [View.subgraphIds_ofSource, h.map_snd_statements', h.subgraphIds_old]
  simp only [List.filterMap_append, htail, hcopy, List.mem_append, List.mem_map, List.not_mem_nil,
    or_false]
  exact or_right_comm

/-- A subgraph of the block has a new id. -/
theorem isSome_lookup_of_subgraph (hx : x ∈ block.filterMap Statement.subgraph?) :
    (map.lookup x).isSome = true :=
  (h.isSome_lookup x).2 (.inl hx)

theorem not_mem_ids_of_isSome_lookup (hx : (map.lookup x).isSome = true) :
    renameId map x ∉ (View.ofSource s).ids := by
  obtain ⟨new, hnew⟩ := Option.isSome_iff_exists.1 hx
  rw [renameId, hnew]
  exact h.fresh _ (mem_of_lookup_eq_some hnew)

/-- No id that was in use names another thing now. -/
theorem mem_subgraphIds_new_iff (hx : x ∈ (View.ofSource s).ids) :
    x ∈ (View.ofSource s').subgraphIds ↔ x ∈ (View.ofSource s).subgraphIds := by
  rw [h.mem_subgraphIds_new, or_iff_left_iff_imp]
  rintro ⟨y, hy, rfl⟩
  exact absurd hx (h.not_mem_ids_of_isSome_lookup (h.isSome_lookup_of_subgraph hy))

/-- The images of subgraphs are subgraphs, and no others. -/
theorem renameId_mem_subgraphIds (hx : x ∈ (View.ofSource s).ids) :
    renameId map x ∈ (View.ofSource s').subgraphIds ↔ x ∈ (View.ofSource s).subgraphIds := by
  rw [h.mem_subgraphIds_new]
  constructor
  · rintro (hold | ⟨y, hy, heq⟩)
    · rwa [h.renameId_eq_self (View.mem_ids_of_mem_subgraphIds hold)] at hold
    · have hmem := h.mem_subgraphIds_of_mem_block hy
      rwa [h.injOn (View.mem_ids_of_mem_subgraphIds hmem) hx heq] at hmem
  · intro hold
    cases hlookup : map.lookup x with
    | none =>
      rw [renameId, hlookup]
      exact .inl hold
    | some new =>
      have hsome := (h.isSome_lookup x).1 (by rw [hlookup]; rfl)
      exact .inr ⟨x, hsome.resolve_right fun hnot => hnot.1 hold, rfl⟩

/-! ### Subgraphs -/

theorem tokens_mem_ids (hst : st ∈ before ++ block ++ after) :
    ∀ t ∈ st.tokens, t.id ∈ (View.ofSource s).ids := fun _ ht =>
  h.mem_ids_of_mem_tokenIds (List.mem_map_of_mem (List.mem_flatMap.2 ⟨st, hst, ht⟩))

omit h in
theorem subgraphIds_frontReader (s : Source) (first : Nat) (before : List Statement) :
    ((Reader.start s).readAll (numberFrom first before)).view.subgraphIds =
      before.filterMap Statement.subgraph? := by
  rw [View.subgraphIds_readAll, map_snd_numberFrom]
  rfl

/-- The subgraph around the block keeps its id. -/
theorem map_container? :
    ((Reader.start s).readAll (numberFrom first before)).container?.map (renameId map) =
      ((Reader.start s).readAll (numberFrom first before)).container? := by
  cases hcontainer : ((Reader.start s).readAll (numberFrom first before)).container? with
  | none => rfl
  | some x =>
    obtain ⟨i, -, hi⟩ := Option.bind_eq_some_iff.1 hcontainer
    rw [← List.getElem?_map] at hi
    have hx : x ∈ before.filterMap Statement.subgraph? := by
      rw [← subgraphIds_frontReader s first]
      exact List.mem_of_getElem? hi
    have hnodup := h.nodup
    rw [h.subgraphIds_old, List.filterMap_append, List.filterMap_append] at hnodup
    have hdisjoint := List.disjoint_of_nodup_append (List.nodup_append'.1 hnodup).1
    have hmem : x ∈ (View.ofSource s).subgraphIds := by
      rw [h.subgraphIds_old, List.filterMap_append, List.filterMap_append]
      exact List.mem_append_left _ (List.mem_append_left _ hx)
    have hnone : map.lookup x = none := by
      rw [← Option.not_isSome_iff_eq_none, h.isSome_lookup]
      rintro (hblock | ⟨hnot, -⟩)
      exacts [hdisjoint hx hblock, hnot hmem]
    rw [Option.map_some, renameId, hnone]
    rfl

omit h in
theorem length_subgraphs_frontReader (s : Source) (first : Nat) (before : List Statement) :
    ((Reader.start s).readAll (numberFrom first before)).view.subgraphs.length =
      (before.filterMap Statement.subgraph?).length := by
  rw [← subgraphIds_frontReader s first, View.subgraphIds, List.length_map]

section Readers

variable {r₀ r₁ r₂ r r' : Reader}
  (hr₀ : r₀ = (Reader.start s).readAll (numberFrom first before))
  (hr₁ : r₁ = r₀.readAll (numberFrom (first + before.length) block))
  (hr₂ : r₂ = r₁.readAll (numberFrom (first + before.length + block.length) copy))
include hr₀ hr₁

/-- What the block leaves behind. -/
theorem readBlock :
    (∀ i ∈ r₀.openBlocks, i < r₀.view.subgraphs.length) ∧ r₁.openBlocks = r₀.openBlocks ∧
      r₀.view.subgraphs <+: r₁.view.subgraphs := by
  obtain ⟨header, inner, hblock, hcloses⟩ := h.isBlock
  have hmet : ∀ i ∈ r₀.openBlocks, i < r₀.view.subgraphs.length := by
    rw [hr₀]
    exact Reader.lt_of_mem_openBlocks
  rw [hblock] at hr₁
  have hinside := Reader.inside_readBlock (S := Set.univ) (fun _ _ _ _ => trivial)
    (fun _ _ _ _ => trivial) hcloses hr₁
  exact ⟨hmet, hinside.openBlocks, hinside.front_prefix⟩

omit h in
theorem readAll_block : r₁ = (Reader.start s).readAll (numberFrom first (before ++ block)) := by
  rw [hr₁, hr₀, ← Reader.readAll_append, ← numberFrom_append]

/-- The old source goes on behind the block. -/
theorem readAll_old : (Reader.start s).readAll (statements s) =
    r₁.readAll (numberFrom (first + before.length + block.length) after) := by
  rw [h.statements_split, Reader.readAll_append, Reader.readAll_append, hr₁, hr₀]

/-- The subgraphs of the block are closed, and stay as they are. -/
theorem drop_take_subgraphs (sts : List (Nat × Statement)) :
    ((r₁.readAll sts).view.subgraphs.take r₁.view.subgraphs.length).drop r₀.view.subgraphs.length =
      r₁.view.subgraphs.drop r₀.view.subgraphs.length := by
  obtain ⟨hmet, hopen, -⟩ := h.readBlock hr₀ hr₁
  refine List.ext_getElem? fun j => ?_
  rw [List.getElem?_drop, List.getElem?_drop]
  rcases Nat.lt_or_ge (r₀.view.subgraphs.length + j) r₁.view.subgraphs.length with hlt | hge
  · rw [List.getElem?_take_of_lt hlt, Reader.getElem?_readAll hlt]
    intro hmem
    have := hmet _ (hopen ▸ hmem)
    omega
  · rw [List.getElem?_eq_none (Nat.le_trans (List.length_take_le _ _) hge), List.getElem?_eq_none hge]

include hr₂

/-- What the block and its copy leave behind. -/
theorem readCopy : r₂.openBlocks = r₀.openBlocks ∧
    r₂.view.subgraphs = r₁.view.subgraphs ++
      (r₁.view.subgraphs.drop r₀.view.subgraphs.length).map
        (copied (renameId map) block.length) ∧
    r₁.places (numberFrom (first + before.length + block.length) copy) =
      (r₀.places (numberFrom (first + before.length) block)).map
        (fun p => (renameId map p.1, p.2.map (renameId map))) ∧
    ∀ p ∈ r₀.places (numberFrom (first + before.length) block), p.2.isSome = true := by
  obtain ⟨hmet, -, -⟩ := h.readBlock hr₀ hr₁
  obtain ⟨header, inner, hblock, hcloses⟩ := h.isBlock
  have hrenamed := h.renamed
  have hids : ∀ st ∈ before ++ block ++ after, ∀ t ∈ st.tokens,
      t.id ∈ {x | x ∈ (View.ofSource s).ids} := fun st hst => h.tokens_mem_ids hst
  have hcontainer := h.map_container?
  rw [← hr₀] at hcontainer
  have hknows : ∀ g ∈ r₀.view.subgraphs, g.KnowsOnly {x | x ∈ (View.ofSource s).ids} := by
    rw [hr₀]
    refine Reader.knowsOnly_readAll (fun g hg => by cases hg) fun p hp => hids p.2 ?_
    have hmem := List.mem_map_of_mem (f := Prod.snd) hp
    rw [map_snd_numberFrom] at hmem
    exact List.mem_append_left _ (List.mem_append_left _ hmem)
  have hinjOn := h.injOn
  clear h
  subst hblock
  obtain ⟨st', copy, hfirst, hrest, rfl⟩ := List.forall₂_cons_left_iff.1 hrenamed
  obtain ⟨header', rfl, hid, hlabel⟩ := hfirst.isAlike.header header rfl
  refine Reader.readAll_readBlock hknows (fun st hst => hids st ?_) hcloses hr₁ hinjOn hcontainer hmet
    ⟨hid, hlabel⟩ (hrest.imp fun _ _ hst => hst.isAlike) hr₂
  exact List.mem_append_left _ (List.mem_append_right _ (List.mem_cons_of_mem _ hst))

/-- The new source goes on behind the copy. -/
theorem readAll_new : (Reader.start s').readAll (statements s') =
    (r₂.readAll (numberFrom (first + before.length + block.length + block.length) after)).readAll
      (numberFrom (first + before.length + block.length + block.length + after.length) tail) := by
  rw [h.statements_split', h.start_eq', Reader.readAll_append, Reader.readAll_append,
    Reader.readAll_append, Reader.readAll_append, hr₂, hr₁, hr₀]

variable {f : Nat → Nat} (hfront : ∀ j ≤ span.stop, f j = j)
  (hbehind : ∀ j, span.stop < j → f j = j + block.length)

include hfront in
/-- Behind the copy, the subgraphs so far stand where they stood, and the copies follow. -/
theorem shows_readCopy : r₁.Shows ⟨r₁.view.subgraphs.length,
    (r₁.view.subgraphs.drop r₀.view.subgraphs.length).map (copied (renameId map) block.length),
    .moved f, .moved f⟩ r₂ := by
  obtain ⟨-, hopen₁, -⟩ := h.readBlock hr₀ hr₁
  obtain ⟨hopen₂, hsubgraphs₂, -⟩ := h.readCopy hr₀ hr₁ hr₂
  have hread := readAll_block hr₀ hr₁
  have hmet : ∀ i ∈ r₁.openBlocks, i < r₁.view.subgraphs.length := by
    rw [hread]
    exact Reader.lt_of_mem_openBlocks
  have hsame : r₁.view.subgraphs.map (moved f) = r₁.view.subgraphs := by
    refine (List.map_congr_left fun g hg => ?_).trans (List.map_id _)
    rw [hread] at hg
    obtain ⟨hle, hlt⟩ := Reader.stop_lt_of_readAll s first (before ++ block) g hg
    rw [List.length_append, ← Nat.add_assoc] at hlt
    have hstop := h.stop_eq
    rw [moved, hfront _ (by omega), hfront _ (by omega)]
    rfl
  refine ⟨?_, ?_, Nat.le_refl _⟩
  · rw [hsubgraphs₂, Inlay.lay, List.take_length, List.drop_length, hsame, List.map_nil,
      List.append_nil]
  · rw [hopen₂, ← hopen₁]
    exact (List.map_id _).symm.trans (List.map_congr_left fun i hi => (if_pos (hmet i hi)).symm)

include hfront hbehind in
/-- The lines behind are read with the copies in between. -/
theorem readAll_after : (r₁.readAll (numberFrom (first + before.length + block.length) after)).Shows
      ⟨r₁.view.subgraphs.length,
        (r₁.view.subgraphs.drop r₀.view.subgraphs.length).map (copied (renameId map) block.length),
        .moved f, .moved f⟩
      (r₂.readAll (numberFrom (first + before.length + block.length + block.length) after)) ∧
    r₂.places (numberFrom (first + before.length + block.length + block.length) after) =
      r₁.places (numberFrom (first + before.length + block.length) after) :=
  (h.shows_readCopy hr₀ hr₁ hr₂ hfront).readAll_moved
    (fun j hj => hbehind j (Nat.lt_of_succ_le (Nat.le_trans (Nat.le_of_eq h.stop_eq) hj))) after

omit hr₀ hr₁ hr₂ in
/-- The end of the new source opens and closes nothing, and mentions nothing. -/
theorem readAll_tail (r : Reader) (n : Nat) :
    (r.readAll (numberFrom n tail)).view.subgraphs = r.view.subgraphs ∧
      (r.readAll (numberFrom n tail)).openBlocks = r.openBlocks ∧
      r.places (numberFrom n tail) = [] :=
  r.readAll_directives _ fun p hp =>
    h.directives p.2 (by simpa using List.mem_map_of_mem (f := Prod.snd) hp)

end Readers

/-- The subgraphs that the two readers have met at the end. Of the `c` subgraphs that begin in front of
the end of the block, those behind number `b` begin inside of it. -/
theorem readers_subgraphs {f : Nat → Nat} (hfront : ∀ j ≤ span.stop, f j = j)
    (hbehind : ∀ j, span.stop < j → f j = j + block.length) {r r' : Reader}
    (hread : r = (Reader.start s).readAll (statements s))
    (hread' : r' = (Reader.start s').readAll (statements s')) {b c : Nat}
    (hb : b = (before.filterMap Statement.subgraph?).length)
    (hc : c = ((before ++ block).filterMap Statement.subgraph?).length) :
    r'.openBlocks = [] ∧
      r'.view.subgraphs = (r.view.subgraphs.take c).map (moved f) ++
        ((r.view.subgraphs.take c).drop b).map (copied (renameId map) block.length) ++
        (r.view.subgraphs.drop c).map (moved f) := by
  obtain ⟨r₀, hr₀⟩ : ∃ r₀, r₀ = (Reader.start s).readAll (numberFrom first before) := ⟨_, rfl⟩
  obtain ⟨r₁, hr₁⟩ : ∃ r₁, r₁ = r₀.readAll (numberFrom (first + before.length) block) := ⟨_, rfl⟩
  obtain ⟨r₂, hr₂⟩ : ∃ r₂, r₂ = r₁.readAll
      (numberFrom (first + before.length + block.length) copy) := ⟨_, rfl⟩
  obtain ⟨hshows, -⟩ := h.readAll_after hr₀ hr₁ hr₂ hfront hbehind
  have hlength₀ : r₀.view.subgraphs.length = b := by
    rw [hr₀, hb, length_subgraphs_frontReader]
  have hlength₁ : r₁.view.subgraphs.length = c := by
    rw [readAll_block hr₀ hr₁, hc, length_subgraphs_frontReader]
  rw [h.readAll_old hr₀ hr₁] at hread
  rw [h.readAll_new hr₀ hr₁ hr₂] at hread'
  obtain ⟨hsubgraphs, hopen, -⟩ := h.readAll_tail
    (r₂.readAll (numberFrom (first + before.length + block.length + block.length) after))
    (first + before.length + block.length + block.length + after.length)
  rw [← hread'] at hsubgraphs hopen
  have hclosed := h.openBlocks
  rw [h.readAll_old hr₀ hr₁, ← hread] at hclosed
  rw [← hread] at hshows
  have hblock := h.drop_take_subgraphs hr₀ hr₁
    (numberFrom (first + before.length + block.length) after)
  rw [← hread] at hblock
  refine ⟨?_, ?_⟩
  · rw [hopen, hshows.openBlocks, hclosed]
    rfl
  · rw [hsubgraphs, hshows.subgraphs, ← hlength₀, ← hlength₁, hblock]
    rfl

/-- The places of nodes in the block come once more, about the new ids. -/
theorem exists_places : ∃ front inside behind,
    (Reader.start s).places (statements s) = front ++ inside ++ behind ∧
      (Reader.start s').places (statements s') =
        front ++ inside ++ inside.map (fun p => (renameId map p.1, p.2.map (renameId map))) ++
          behind ∧
      front.map Prod.fst = tokenIds before ∧ inside.map Prod.fst = tokenIds block ∧
      ∀ p ∈ inside, p.2.isSome = true := by
  obtain ⟨r₀, hr₀⟩ : ∃ r₀, r₀ = (Reader.start s).readAll (numberFrom first before) := ⟨_, rfl⟩
  obtain ⟨r₁, hr₁⟩ : ∃ r₁, r₁ = r₀.readAll (numberFrom (first + before.length) block) := ⟨_, rfl⟩
  obtain ⟨r₂, hr₂⟩ : ∃ r₂, r₂ = r₁.readAll
      (numberFrom (first + before.length + block.length) copy) := ⟨_, rfl⟩
  obtain ⟨-, hafter⟩ := h.readAll_after hr₀ hr₁ hr₂
    (f := fun j => if span.stop < j then j + block.length else j)
    (fun _ hj => if_neg (Nat.not_lt.2 hj)) (fun _ hj => if_pos hj)
  obtain ⟨-, -, hcopy, hsome⟩ := h.readCopy hr₀ hr₁ hr₂
  obtain ⟨-, -, htail⟩ := h.readAll_tail
    (r₂.readAll (numberFrom (first + before.length + block.length + block.length) after))
    (first + before.length + block.length + block.length + after.length)
  refine ⟨(Reader.start s).places (numberFrom first before),
    r₀.places (numberFrom (first + before.length) block),
    r₁.places (numberFrom (first + before.length + block.length) after), ?_, ?_, ?_, ?_, hsome⟩
  · rw [h.statements_split, Reader.places_append, Reader.places_append, Reader.readAll_append, hr₁, hr₀]
  · rw [h.statements_split', h.start_eq']
    simp only [Reader.places_append, Reader.readAll_append, ← hr₀, ← hr₁, ← hr₂, hcopy, hafter, htail,
      List.append_nil]
  · rw [Reader.map_fst_places, ← List.flatMap_map, map_snd_numberFrom]
    rfl
  · rw [Reader.map_fst_places, ← List.flatMap_map, map_snd_numberFrom]
    rfl

/-! ### Nodes -/

theorem tokenIds_new : tokenIds ((statements s').map Prod.snd) =
    tokenIds before ++ tokenIds block ++ (tokenIds block).map (renameId map) ++ tokenIds after := by
  have htail : tokenIds tail = [] := by
    rw [tokenIds, List.flatMap_eq_nil_iff.2 fun st hst => (h.directives st hst).eq_nil.1]
    rfl
  rw [h.map_snd_statements', tokenIds_append, tokenIds_append, tokenIds_append, tokenIds_append,
    htail, tokenIds_renamed h.renamed, List.append_nil]

theorem mem_tokenIds_new : x ∈ tokenIds ((statements s').map Prod.snd) ↔
    x ∈ tokenIds ((statements s).map Prod.snd) ∨ ∃ y ∈ tokenIds block, renameId map y = x := by
  rw [h.tokenIds_new, h.map_snd_statements, tokenIds_append, tokenIds_append]
  simp only [List.mem_append, List.mem_map]
  exact or_right_comm

theorem mem_ids_of_mem_block (hx : x ∈ tokenIds block) : x ∈ (View.ofSource s).ids := by
  refine h.mem_ids_of_mem_tokenIds ?_
  rw [tokenIds_append, tokenIds_append]
  exact List.mem_append_left _ (List.mem_append_right _ hx)

/-- The nodes are the old ones and the images of those that have new ids. -/
theorem isSome_node?_iff : ((View.ofSource s').node? x).isSome = true ↔
    ((View.ofSource s).node? x).isSome = true ∨
      ∃ y, ((View.ofSource s).node? y).isSome = true ∧ map.lookup y = some x := by
  rw [View.isSome_node?_iff_tokenIds, View.isSome_node?_iff_tokenIds, h.mem_tokenIds_new]
  constructor
  · rintro ⟨hnot, hold | ⟨y, hy, rfl⟩⟩
    · exact .inl ⟨fun hsub => hnot (h.mem_subgraphIds_new.2 (.inl hsub)), hold⟩
    · have hids := h.mem_ids_of_mem_block hy
      have hnoty := mt (h.renameId_mem_subgraphIds hids).2 hnot
      have hall : y ∈ tokenIds ((statements s).map Prod.snd) := by
        rw [h.map_snd_statements, tokenIds_append, tokenIds_append]
        exact List.mem_append_left _ (List.mem_append_right _ hy)
      cases hlookup : map.lookup y with
      | none =>
        rw [renameId, hlookup, Option.getD_none]
        exact .inl ⟨hnoty, hall⟩
      | some new =>
        rw [renameId, hlookup, Option.getD_some]
        exact .inr ⟨y, View.isSome_node?_iff_tokenIds.2 ⟨hnoty, hall⟩, hlookup⟩
  · rintro (⟨hnot, hmem⟩ | ⟨y, hy, hlookup⟩)
    · have hids : x ∈ (View.ofSource s).ids :=
        h.mem_ids_of_mem_tokenIds (h.map_snd_statements ▸ hmem)
      exact ⟨mt (h.mem_subgraphIds_new_iff hids).1 hnot, .inl hmem⟩
    · obtain ⟨hnot, hmem⟩ := View.isSome_node?_iff_tokenIds.1 hy
      have hids : y ∈ (View.ofSource s).ids :=
        h.mem_ids_of_mem_tokenIds (h.map_snd_statements ▸ hmem)
      have hnew : renameId map y = x := by rw [renameId, hlookup, Option.getD_some]
      have hblock := ((h.isSome_lookup y).1 (by rw [hlookup]; rfl)).resolve_left fun hsub =>
        hnot (h.mem_subgraphIds_of_mem_block hsub)
      rw [← hnew]
      exact ⟨mt (h.renameId_mem_subgraphIds hids).1 hnot, .inr ⟨y, hblock.2.1, rfl⟩⟩

theorem mem_ids_of_mem_places {p : Text × Option Text}
    (hp : p ∈ (Reader.start s).places (statements s)) : p.1 ∈ (View.ofSource s).ids := by
  have hmem := List.mem_map_of_mem (f := Prod.fst) hp
  rw [Reader.map_fst_places, ← List.flatMap_map, h.map_snd_statements] at hmem
  exact h.mem_ids_of_mem_tokenIds hmem

/-- An id without a new one stands for itself alone. -/
theorem renameId_eq_iff_of_none (hlookup : map.lookup x = none) (hx : x ∈ (View.ofSource s).ids)
    (hy : y ∈ (View.ofSource s).ids) : renameId map y = x ↔ y = x := by
  have hself : renameId map x = x := by rw [renameId, hlookup, Option.getD_none]
  refine ⟨fun heq => h.injOn hy hx (heq.trans hself.symm), ?_⟩
  rintro rfl
  exact hself

/-- No id stands for one that has a new one. -/
theorem renameId_ne_of_isSome (hlookup : (map.lookup x).isSome = true)
    (hx : x ∈ (View.ofSource s).ids) (y : Text) : renameId map y ≠ x := by
  rintro rfl
  have hself := h.renameId_eq_self hx
  rw [hself] at hlookup
  exact h.not_mem_ids_of_isSome_lookup hlookup hx

omit h in
theorem node_mem_ids {n : NodeRecord} {v : View} (hn : n ∈ v.nodes) : n.id ∈ v.ids :=
  List.mem_append_left _ (List.mem_map_of_mem hn)

theorem definitions_new (id : Text) :
    ((statements s').map Prod.snd).flatMap (Statement.definitionsOf id) =
      before.flatMap (Statement.definitionsOf id) ++ block.flatMap (Statement.definitionsOf id) ++
        ((block.flatMap Statement.tokens).filter fun t => renameId map t.id = id).filterMap
          (·.definition) ++ after.flatMap (Statement.definitionsOf id) := by
  have htail : tail.flatMap (Statement.definitionsOf id) = [] :=
    List.flatMap_eq_nil_iff.2 fun st hst => by
      rw [Statement.definitionsOf, (h.directives st hst).eq_nil.1]
      rfl
  rw [h.map_snd_statements']
  simp only [List.flatMap_append, htail, List.append_nil]
  rw [flatMap_definitionsOf_renamed h.renamed]

variable {n n' : NodeRecord} (hn : n ∈ (View.ofSource s).nodes) (hn' : n' ∈ (View.ofSource s').nodes)
include hn hn'

/-- An old node keeps its definition. -/
theorem definition_eq_of_old (hid : n'.id = n.id) : n'.definition = n.definition := by
  have hids := node_mem_ids hn
  rw [View.definition_eq hn, View.definition_eq hn', hid, h.definitions_new, h.map_snd_statements]
  simp only [List.flatMap_append]
  cases hlookup : map.lookup n.id with
  | none =>
    have hsame : ((block.flatMap Statement.tokens).filter fun t => renameId map t.id = n.id) =
        (block.flatMap Statement.tokens).filter fun t => t.id = n.id :=
      List.filter_congr fun t ht => decide_eq_decide.2
        (h.renameId_eq_iff_of_none hlookup hids (h.mem_ids_of_mem_block (List.mem_map_of_mem ht)))
    rw [hsame, ← flatMap_definitionsOf, List.append_assoc (before.flatMap _),
      View.richest_append_self]
  | some new =>
    have hnone : ((block.flatMap Statement.tokens).filter fun t => renameId map t.id = n.id) = [] :=
      List.filter_eq_nil_iff.2 fun t _ heq =>
        h.renameId_ne_of_isSome (by rw [hlookup]; rfl) hids t.id (of_decide_eq_true heq)
    rw [hnone, List.filterMap_nil, List.append_nil]

/-- An old node keeps its subgraph. -/
theorem subgraph_eq_of_old (hid : n'.id = n.id) : n'.subgraph = n.subgraph := by
  have hids := node_mem_ids hn
  obtain ⟨front, inside, behind, hold, hnew, -⟩ := h.exists_places
  have hmem : ∀ p ∈ inside, p.1 ∈ (View.ofSource s).ids := fun p hp =>
    h.mem_ids_of_mem_places (hold ▸ List.mem_append_left _ (List.mem_append_right _ hp))
  rw [View.subgraph_eq_firstPlace hn, View.subgraph_eq_firstPlace hn', hid, hold, hnew]
  simp only [firstPlace_append]
  cases hlookup : map.lookup n.id with
  | none =>
    rw [firstPlace_map fun p hp => h.renameId_eq_iff_of_none hlookup hids (hmem p hp)]
    cases firstPlace n.id front <;> cases firstPlace n.id inside <;> rfl
  | some new =>
    have hcopy : firstPlace n.id
        (inside.map fun p => (renameId map p.1, p.2.map (renameId map))) = none := by
      refine firstPlace_eq_none fun q hq => ?_
      obtain ⟨p, -, rfl⟩ := List.mem_map.1 hq
      exact h.renameId_ne_of_isSome (by rw [hlookup]; rfl) hids p.1
    rw [hcopy, Option.or_none]

section New

variable (hlookup : map.lookup n.id = some n'.id)
include hlookup

omit hn' in
/-- A node with a new id is first mentioned in the block. -/
theorem first_mentioned : n.id ∈ tokenIds block ∧ n.id ∉ tokenIds before :=
  (((h.isSome_lookup n.id).1 (by rw [hlookup]; rfl)).resolve_left fun hsub =>
    View.not_mem_subgraphIds hn (h.mem_subgraphIds_of_mem_block hsub)).2

omit hn hn' in
/-- The image of a node is mentioned in the copy only. -/
theorem not_mem_ids_new : n'.id ∉ (View.ofSource s).ids :=
  h.fresh _ (mem_of_lookup_eq_some hlookup)

/-- The copy of a node has the definitions of the block. -/
theorem definition_eq_of_new :
    n'.definition = View.richest (block.flatMap (Statement.definitionsOf n.id)) := by
  have hids := node_mem_ids hn
  have hnew : renameId map n.id = n'.id := by rw [renameId, hlookup, Option.getD_some]
  have hnot := h.not_mem_ids_new hlookup
  have hnone : ∀ {sts : List Statement}, (∀ x ∈ tokenIds sts, x ∈ (View.ofSource s).ids) →
      sts.flatMap (Statement.definitionsOf n'.id) = [] := fun hsts =>
    flatMap_definitionsOf_eq_nil fun hmem => hnot (hsts _ hmem)
  have hall : ∀ x ∈ tokenIds (before ++ block ++ after), x ∈ (View.ofSource s).ids := fun x hx =>
    h.mem_ids_of_mem_tokenIds hx
  rw [tokenIds_append, tokenIds_append] at hall
  have hsame : ((block.flatMap Statement.tokens).filter fun t => renameId map t.id = n'.id) =
      (block.flatMap Statement.tokens).filter fun t => t.id = n.id := by
    refine List.filter_congr fun t ht => decide_eq_decide.2 ?_
    rw [← hnew]
    exact ⟨fun heq => h.injOn (h.mem_ids_of_mem_block (List.mem_map_of_mem ht)) hids heq,
      congrArg _⟩
  rw [View.definition_eq hn', h.definitions_new, hsame, ← flatMap_definitionsOf,
    hnone fun x hx => hall x (List.mem_append_left _ (List.mem_append_left _ hx)),
    hnone fun x hx => hall x (List.mem_append_left _ (List.mem_append_right _ hx)),
    hnone fun x hx => hall x (List.mem_append_right _ hx), List.append_nil]
  rfl

/-- The copy of a node belongs to the image of its subgraph. -/
theorem subgraph_eq_of_new : n'.subgraph = n.subgraph.map (renameId map) := by
  have hids := node_mem_ids hn
  have hnew : renameId map n.id = n'.id := by rw [renameId, hlookup, Option.getD_some]
  have hnot := h.not_mem_ids_new hlookup
  obtain ⟨hblock, hbefore⟩ := h.first_mentioned hn hlookup
  obtain ⟨front, inside, behind, hold, hplaces, hfront, hinside, hsome⟩ := h.exists_places
  have hmem : ∀ p ∈ front ++ inside ++ behind, p.1 ∈ (View.ofSource s).ids := fun p hp =>
    h.mem_ids_of_mem_places (hold ▸ hp)
  have hnone : ∀ {ps : List (Text × Option Text)}, (∀ p ∈ ps, p.1 ∈ (View.ofSource s).ids) →
      firstPlace n'.id ps = none := fun hps =>
    firstPlace_eq_none fun p hp heq => hnot (heq ▸ hps p hp)
  have hcopy : firstPlace n'.id (inside.map fun p => (renameId map p.1, p.2.map (renameId map))) =
      (firstPlace n.id inside).map (renameId map) := firstPlace_map fun p hp => by
      rw [← hnew]
      exact ⟨fun heq => h.injOn
        (hmem p (List.mem_append_left _ (List.mem_append_right _ hp))) hids heq, congrArg _⟩
  have hbefore' : firstPlace n.id front = none := firstPlace_eq_none fun p hp heq =>
    hbefore (hfront ▸ heq ▸ List.mem_map_of_mem hp)
  -- The first place of the node is in the block.
  have hfirst : ∃ name, firstPlace n.id inside = some name := by
    rw [← hinside] at hblock
    obtain ⟨p, hp, heq⟩ := List.mem_map.1 hblock
    refine Option.isSome_iff_exists.1 (List.findSome?_isSome_iff.2 ⟨p, ?_, hsome p hp⟩)
    exact List.mem_filter.2 ⟨hp, decide_eq_true heq⟩
  obtain ⟨name, hname⟩ := hfirst
  rw [View.subgraph_eq_firstPlace hn, View.subgraph_eq_firstPlace hn', hold, hplaces]
  simp only [firstPlace_append, hcopy, hbefore', hname, Option.none_or, Option.map_some, Option.some_or]
  rw [hnone fun p hp => hmem p (List.mem_append_left _ (List.mem_append_left _ hp)),
    hnone fun p hp => hmem p (List.mem_append_left _ (List.mem_append_right _ hp))]
  rfl

end New

omit hn hn'

/-! ### Lines -/

/-- The links of the block come once more, between the new ids. -/
theorem links_eq : (View.ofSource s').links.map (·.link) =
    ((View.ofSource s).links.filter fun l => l.line ≤ span.stop).map (·.link) ++
      (((View.ofSource s).links.filter fun l => span.contains l.line).map (·.link)).map
        (LinkLine.renamed map) ++
      ((View.ofSource s).links.filter fun l => span.stop < l.line).map (·.link) := by
  obtain ⟨hfront, hinside, hbehind⟩ := h.filter_statements
  have htail : tail.filterMap Statement.link? = [] :=
    List.filterMap_eq_nil_iff.2 fun st hst => (h.directives st hst).eq_nil.2.1
  rw [View.map_link_links, h.map_snd_statements',
    View.map_link_filter_links (fun j => j ≤ span.stop), hfront,
    View.map_link_filter_links span.contains, hinside,
    View.map_link_filter_links (fun j => span.stop < j), hbehind]
  simp only [List.map_append, map_snd_numberFrom, List.filterMap_append, htail, List.append_nil]
  rw [filterMap_renamed h.renamed fun _ _ hst => hst.link?]

/-! ### The list of subgraphs -/

/-- All members that the reader has met are known. -/
theorem knowsOnly_reader :
    ∀ g ∈ ((Reader.start s).readAll (statements s)).view.subgraphs,
      g.KnowsOnly {x | x ∈ (View.ofSource s).ids} := by
  refine Reader.knowsOnly_readAll (fun g hg => by cases hg) fun p hp => h.tokens_mem_ids ?_
  rw [← h.map_snd_statements]
  exact List.mem_map_of_mem hp

variable {f : Nat → Nat} {g : SubgraphRecord}

/-- Members that name no subgraph are the same in both sources. -/
theorem withoutMembers_moved {gs : List SubgraphRecord}
    (hgs : ∀ g ∈ gs, g.KnowsOnly {x | x ∈ (View.ofSource s).ids}) :
    (gs.map (moved f)).map (withoutMembers (View.ofSource s').subgraphIds) =
      (gs.map (withoutMembers (View.ofSource s).subgraphIds)).map (moved f) := by
  rw [List.map_map, List.map_map]
  refine List.map_congr_left fun g hg => ?_
  have hmembers : (g.members.filter fun x => !(View.ofSource s').subgraphIds.contains x) =
      g.members.filter fun x => !(View.ofSource s).subgraphIds.contains x :=
    List.filter_congr fun x hx => by
      simp only [List.contains_eq_mem, h.mem_subgraphIds_new_iff (hgs g hg x hx)]
  simp only [Function.comp_apply, withoutMembers, moved, hmembers]

/-- Members of a copy name no subgraph exactly if the original ones do not. -/
theorem withoutMembers_copied {gs : List SubgraphRecord}
    (hgs : ∀ g ∈ gs, g.KnowsOnly {x | x ∈ (View.ofSource s).ids}) (k : Nat) :
    (gs.map (copied (renameId map) k)).map
        (withoutMembers (View.ofSource s').subgraphIds) =
      (gs.map (withoutMembers (View.ofSource s).subgraphIds)).map (copied (renameId map) k) := by
  rw [List.map_map, List.map_map]
  refine List.map_congr_left fun g hg => ?_
  have hmembers : ((g.members.map (renameId map)).filter fun x =>
      !(View.ofSource s').subgraphIds.contains x) =
        (g.members.filter fun x => !(View.ofSource s).subgraphIds.contains x).map
          (renameId map) := by
    rw [List.filter_map]
    congr 1
    exact List.filter_congr fun x hx => by
      simp only [Function.comp_apply, List.contains_eq_mem,
        h.renameId_mem_subgraphIds (hgs g hg x hx)]
  simp only [Function.comp_apply, withoutMembers, copied, hmembers]

/-- The subgraphs of the block come once more, about the new ids. -/
theorem subgraphs_eq (hfront : ∀ j ≤ span.stop, f j = j)
    (hbehind : ∀ j, span.stop < j → f j = j + block.length) :
    (View.ofSource s').subgraphs =
      ((View.ofSource s).subgraphs.filter fun g => g.span.start ≤ span.stop).map (moved f) ++
        ((View.ofSource s).subgraphs.filter fun g => span.contains g.span.start).map
          (copied (renameId map) block.length) ++
        ((View.ofSource s).subgraphs.filter fun g => span.stop < g.span.start).map (moved f) := by
  obtain ⟨r, hr⟩ : ∃ r, r = (Reader.start s).readAll (statements s) := ⟨_, rfl⟩
  obtain ⟨r', hr'⟩ : ∃ r', r' = (Reader.start s').readAll (statements s') := ⟨_, rfl⟩
  obtain ⟨hopen', hsubgraphs⟩ := h.readers_subgraphs hfront hbehind hr hr' rfl rfl
  have hknows := h.knowsOnly_reader
  have hview : (View.ofSource s).subgraphs = _ := View.subgraphs_of_closed h.openBlocks
  have hview' : (View.ofSource s').subgraphs = _ := View.subgraphs_of_closed (hr' ▸ hopen')
  have hstarts : r.view.subgraphs.map (·.span.start) = headerLines (statements s) := by
    rw [hr]
    exact (List.map_map ..).symm.trans (Reader.starts_readAll _ _)
  rw [← hr] at hknows hview
  rw [← hr'] at hview'
  obtain ⟨htake, hinside, hdrop⟩ := h.filter_subgraphs hstarts rfl rfl
  have hknowsOf : ∀ p : SubgraphRecord → Bool, ∀ g ∈ r.view.subgraphs.filter p,
      g.KnowsOnly {x | x ∈ (View.ofSource s).ids} := fun p g hg => hknows g (List.mem_filter.1 hg).1
  rw [hview', hsubgraphs, hinside, htake, hdrop, hview, List.map_append, List.map_append,
    h.withoutMembers_moved (hknowsOf _), h.withoutMembers_copied (hknowsOf _),
    h.withoutMembers_moved (hknowsOf _), List.filter_map, List.filter_map, List.filter_map]
  rfl

/-! ### Directives -/

section Directives

variable {α : Type} {get : Statement → Option α} {f : Nat → Nat} {i : Nat} {a : α}

/-- What was found in the old lines is found where they stand now. -/
theorem mem_found_old (hfront : ∀ j ≤ span.stop, f j = j)
    (hbehind : ∀ j, span.stop < j → f j = j + block.length)
    (hmem : (i, a) ∈ found get (statements s)) : (f i, a) ∈ found get (statements s') := by
  obtain ⟨st, hst, hget⟩ := mem_found.1 hmem
  obtain ⟨hbefore, hblock, hafter⟩ := h.bounds_of_lines
  refine mem_found.2 ⟨st, ?_, hget⟩
  rw [h.statements_split] at hst
  rw [h.statements_split']
  simp only [List.mem_append] at hst ⊢
  rcases hst with (hst | hst) | hst
  · rw [hfront i (hbefore _ hst).1]
    exact .inl (.inl (.inl (.inl hst)))
  · rw [hfront i (hblock _ hst).1]
    exact .inl (.inl (.inl (.inr hst)))
  · rw [hbehind i (hafter _ hst).1]
    exact .inl (.inr (mem_numberFrom_add hst))

/-- What was found in the block is found in the copy, about the new ids. -/
theorem mem_found_copy {b : α}
    (hrenamed : ∀ st st', Statement.IsRenamed map st st' → get st = some a → get st' = some b)
    (hmem : (i, a) ∈ found get (statements s)) (hi : span.contains i = true) :
    (i + block.length, b) ∈ found get (statements s') := by
  obtain ⟨st, hst, hget⟩ := mem_found.1 hmem
  have hblock : (i, st) ∈ numberFrom (first + before.length) block := by
    rw [← h.filter_statements.2.1]
    exact List.mem_filter.2 ⟨hst, hi⟩
  obtain ⟨st', hst', hread⟩ := exists_mem_numberFrom_of_forall₂ h.renamed hblock
  refine mem_found.2 ⟨st', ?_, hrenamed st st' hst' hget⟩
  rw [h.statements_split']
  simp only [List.mem_append]
  exact .inl (.inl (.inr (mem_numberFrom_add hread)))

/-- What is found behind the old lines is found at the end. -/
theorem found_tail {n : Nat}
    (hn : n = first + before.length + block.length + block.length + after.length) :
    ((found get (statements s')).filter fun q => n ≤ q.1).map Prod.snd = tail.filterMap get := by
  have hfilter : ((statements s').filter fun q => n ≤ q.1) = numberFrom n tail := by
    have hnone : ∀ {m : Nat} {sts : List Statement}, m + sts.length ≤ n →
        ((numberFrom m sts).filter fun q => n ≤ q.1) = [] := fun hle =>
      List.filter_eq_nil_iff.2 fun q hq hge => by
        have := (bounds_of_mem_numberFrom hq).2
        have := of_decide_eq_true hge
        omega
    have hcopy := h.length_copy
    rw [h.statements_split', List.filter_append, List.filter_append, List.filter_append,
      List.filter_append, hnone (by omega), hnone (by omega), hnone (by omega), hnone (by omega), ← hn]
    exact List.filter_eq_self.2 fun q hq => decide_eq_true (bounds_of_mem_numberFrom hq).1
  rw [← found_filter (fun j => n ≤ j), hfilter, map_snd_found, map_snd_numberFrom]

end Directives

end Doubles

end DiagramEditor.Flowchart
