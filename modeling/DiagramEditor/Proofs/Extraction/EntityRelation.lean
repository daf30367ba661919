import DiagramEditor.Extraction.EntityRelation
import DiagramEditor.Markup.Reader
import DiagramEditor.Proofs.EntityRelation.View
import DiagramEditor.Proofs.Extraction.Basic
import DiagramEditor.Proofs.Text.Numeral
import Mathlib.Data.List.Induction

/-!
# Drawn groups and entities

An entity is drawn under its name and its position (`drawnId`). Names may hold dashes and digits, so
such an id can be read in several ways, and the longest name that fits is taken. If every entity is
drawn once and in order (`DrawsEntities`), each comes back from its own group (`PairsWithEntities`)
as long as no name is that of another entity with its position behind it (`NamesApart`), and only
then: `pairsWithEntities_iff`.
-/

namespace DiagramEditor.Extraction

open Markup EntityRelation

variable {tree : Tree} {source : Source} {v : EntityRelation.View} {e b : EntityRecord}
  {es : List EntityRecord} {id name rest : Text} {j : Nat}

/-! ## The longest name -/

/-- What stands behind the first part of the id is the name, or the name and a dash. -/
theorem isDrawnEntity_iff : isDrawnEntity (entityStem ++ rest) name = true ↔
    rest = name ∨ ∃ counter, rest = name ++ '-' :: counter := by
  have hstem : Text.stripFront? entityStem (entityStem ++ rest) = some rest :=
    Text.stripFront?_eq_some.2 rfl
  rw [isDrawnEntity, hstem, Option.bind_some]
  constructor
  · intro h
    split at h
    · next heq => exact .inl (by simpa using Text.stripFront?_eq_some.1 heq)
    · next c counter heq =>
      obtain rfl := beq_iff_eq.1 h
      exact .inr ⟨counter, Text.stripFront?_eq_some.1 heq⟩
    · cases h
  · rintro (rfl | ⟨counter, rfl⟩)
    · rw [Text.stripFront?_eq_some.2 (List.append_nil rest).symm]
    · rw [Text.stripFront?_eq_some.2 rfl]
      exact beq_self_eq_true '-'

/-- The entity with the longer name, the later one of two that are equally long. -/
def longer (best : Option EntityRecord) (e : EntityRecord) : Option EntityRecord :=
  match best with
  | some b => if e.name.length < b.name.length then some b else some e
  | none => some e

theorem isSome_foldl_longer (h : es ≠ []) : (es.foldl longer none).isSome = true := by
  rcases List.eq_nil_or_concat es with rfl | ⟨es, a, rfl⟩
  · exact absurd rfl h
  · rw [List.concat_eq_append, List.foldl_append, List.foldl_cons, List.foldl_nil]
    cases es.foldl longer none with
    | none => rfl
    | some b => rw [longer]; split <;> rfl

/-- What is left over is one of the entities, and none has a longer name. -/
theorem foldl_longer_spec (h : es.foldl longer none = some b) :
    b ∈ es ∧ ∀ e ∈ es, e.name.length ≤ b.name.length := by
  induction es using List.reverseRecOn generalizing b with
  | nil => cases h
  | append_singleton es a ih =>
    rw [List.foldl_append, List.foldl_cons, List.foldl_nil] at h
    rw [List.mem_append, List.forall_mem_append, List.forall_mem_singleton]
    cases hbest : es.foldl longer none with
    | none =>
      have hnil : es = [] := by
        by_contra hne
        have hsome := isSome_foldl_longer hne
        rw [hbest] at hsome
        cases hsome
      rw [hbest] at h
      obtain rfl := Option.some.inj h
      subst hnil
      exact ⟨.inr (List.mem_singleton.2 rfl), nofun, Nat.le_refl _⟩
    | some c =>
      obtain ⟨hc, hle⟩ := ih hbest
      rw [hbest, longer] at h
      split at h
      · next hlt =>
        obtain rfl := Option.some.inj h
        exact ⟨.inl hc, hle, Nat.le_of_lt hlt⟩
      · next hlt =>
        obtain rfl := Option.some.inj h
        exact ⟨.inr (List.mem_singleton.2 rfl),
          fun e he => (hle e he).trans (Nat.le_of_not_lt hlt), Nat.le_refl _⟩

/-- The entity that is found fits the id, and no entity with a longer name does. -/
theorem entityForId?_spec (h : entityForId? v id = some b) :
    b ∈ v.entities ∧ isDrawnEntity id b.name = true ∧
      ∀ e ∈ v.entities, isDrawnEntity id e.name = true → e.name.length ≤ b.name.length := by
  obtain ⟨hb, hle⟩ := foldl_longer_spec h
  obtain ⟨hb, hfits⟩ := List.mem_filter.1 hb
  exact ⟨hb, hfits, fun e he hfits => hle e (List.mem_filter.2 ⟨he, hfits⟩)⟩

/-- An entity is found if one fits. -/
theorem exists_entityForId? (he : e ∈ v.entities) (hfits : isDrawnEntity id e.name = true) :
    ∃ b, entityForId? v id = some b := by
  have hmem : e ∈ v.entities.filter fun e => isDrawnEntity id e.name :=
    List.mem_filter.2 ⟨he, hfits⟩
  exact Option.isSome_iff_exists.1 (isSome_foldl_longer (List.ne_nil_of_mem hmem))

/-! ## Entities as they are drawn -/

/-- The id that is drawn for an entity with this name and position. -/
def drawnId (name : Text) (j : Nat) : Text :=
  entityStem ++ name ++ '-' :: Text.ofNat j

/-- The groups of the entities are those of the view, in order. -/
def DrawsEntities (tree : Tree) (v : EntityRelation.View) : Prop :=
  (entityGroups tree).map (fun t => (t.value? "id").getD []) =
    v.entities.zipIdx.map fun p => drawnId p.1.name p.2

instance : Decidable (DrawsEntities tree v) :=
  inferInstanceAs (Decidable (_ = _))

/-- No entity is named like another one with its position behind it. -/
def NamesApart (v : EntityRelation.View) : Prop :=
  ∀ p ∈ v.entities.zipIdx, p.1.name ++ '-' :: Text.ofNat p.2 ∉ v.names

instance : Decidable (NamesApart v) :=
  inferInstanceAs (Decidable (∀ p ∈ v.entities.zipIdx, p.1.name ++ '-' :: Text.ofNat p.2 ∉ v.names))

/-- There is one object for each entity, in order, with all that the source says about the entity. -/
def PairsWithEntities (tree : Tree) (source : Source) : Prop :=
  (entityRelation tree source).objects.entities = (View.ofSource source).entities.map fun e =>
    { id := entityStem ++ e.name
      name := e.name
      label := e.label
      attributes := e.attributes.map Prod.snd
      line := e.span.map (·.start) }

instance : Decidable (PairsWithEntities tree source) :=
  inferInstanceAs (Decidable (_ = _))

/-- The entity that a drawn id is taken for: one whose name is all of the id behind its first part, or
the one that is drawn. -/
def ownerOf (v : EntityRelation.View) (p : EntityRecord × Nat) : EntityRecord :=
  (v.entity? (p.1.name ++ '-' :: Text.ofNat p.2)).getD p.1

/-! ## Groups are entities -/

/-- A name fits the id of an entity if it is the name of the entity, a shorter one, or all that stands
behind the first part. -/
theorem entityForId?_drawnId (hnodup : v.names.Nodup) (he : e ∈ v.entities) (j : Nat) :
    entityForId? v (drawnId e.name j) = some (ownerOf v (e, j)) := by
  have hid : drawnId e.name j = entityStem ++ (e.name ++ '-' :: Text.ofNat j) :=
    List.append_assoc ..
  have hsame : ∀ {a b : EntityRecord}, a ∈ v.entities → b ∈ v.entities → a.name = b.name → a = b :=
    fun ha hb heq => List.inj_on_of_nodup_map hnodup ha hb heq
  have hown : isDrawnEntity (drawnId e.name j) e.name = true :=
    hid ▸ isDrawnEntity_iff.2 (.inr ⟨Text.ofNat j, rfl⟩)
  obtain ⟨b, hb⟩ := exists_entityForId? he hown
  obtain ⟨hmem, hfits, hlongest⟩ := entityForId?_spec hb
  rw [hid] at hfits hlongest
  rw [hb, Option.some_inj, ownerOf]
  cases hall : v.entity? (e.name ++ '-' :: Text.ofNat j) with
  | some a =>
    rw [Option.getD_some]
    -- Nothing that fits is longer than all of it.
    have ha := List.mem_of_find?_eq_some hall
    have hname : a.name = e.name ++ '-' :: Text.ofNat j := by simpa using List.find?_some hall
    have hle := hlongest a ha (isDrawnEntity_iff.2 (.inl hname.symm))
    rcases isDrawnEntity_iff.1 hfits with heq | ⟨counter, heq⟩
    · exact hsame hmem ha (heq.symm.trans hname.symm)
    · rw [hname, heq, List.length_append, List.length_cons] at hle
      omega
  | none =>
    rw [Option.getD_none]
    have hle := hlongest e he (isDrawnEntity_iff.2 (.inr ⟨Text.ofNat j, rfl⟩))
    rcases isDrawnEntity_iff.1 hfits with heq | ⟨counter, heq⟩
    · exact absurd heq.symm (by simpa using List.find?_eq_none.1 hall b hmem)
    · refine hsame hmem he ?_
      rcases List.append_eq_append_iff.1 heq with ⟨more, hname, hrest⟩ | ⟨more, hname, hrest⟩
      · -- A longer name would end inside the counter, at a dash.
        cases more with
        | nil => rw [hname, List.append_nil]
        | cons c more =>
          have hdash : '-' ∈ Text.ofNat j := by simp [(List.cons.inj hrest).2]
          exact absurd (Text.isDigit_of_mem_ofNat hdash) (by decide)
      · rw [hname, List.length_append] at hle
        rw [hname, List.length_eq_zero_iff.1 (by omega : more.length = 0), List.append_nil]

/-- Each drawn group with its entity, also where an entity has several groups. -/
def groupPairs (tree : Tree) (v : EntityRelation.View) : List (Tag × EntityRecord) :=
  (entityGroups tree).zipIdx.filterMap fun (t, position) =>
    ((entityForId? v ((t.value? "id").getD [])).or v.entities[position]?).map fun e => (t, e)

theorem entityPairs_eq (tree : Tree) (v : EntityRelation.View) :
    entityPairs tree v = firstOfEach (·.2.name) (groupPairs tree v) :=
  rfl

/-- The entities of the groups are read off their ids alone. -/
theorem map_snd_groupPairs (hnodup : v.names.Nodup) (h : DrawsEntities tree v) :
    (groupPairs tree v).map Prod.snd = v.entities.zipIdx.map (ownerOf v) := by
  have hread : ∀ p ∈ v.entities.zipIdx,
      entityForId? v (drawnId p.1.name p.2) = some (ownerOf v p) := fun p hp =>
    entityForId?_drawnId hnodup (List.fst_mem_of_mem_zipIdx hp) p.2
  -- No group falls back on its position.
  have hfound : ∀ q ∈ (entityGroups tree).zipIdx,
      (entityForId? v ((q.1.value? "id").getD [])).or v.entities[q.2]? =
        entityForId? v ((q.1.value? "id").getD []) := by
    intro q hq
    have hmem : (q.1.value? "id").getD [] ∈ v.entities.zipIdx.map fun p => drawnId p.1.name p.2 :=
      h ▸ List.mem_map_of_mem (List.fst_mem_of_mem_zipIdx hq)
    obtain ⟨p, hp, hid⟩ := List.mem_map.1 hmem
    rw [← hid, hread p hp, Option.some_or]
  calc (groupPairs tree v).map Prod.snd
      = (entityGroups tree).zipIdx.filterMap fun q =>
          entityForId? v ((q.1.value? "id").getD []) := by
        rw [groupPairs, List.map_filterMap]
        refine List.filterMap_congr fun q hq => ?_
        rw [Option.map_map, hfound q hq]
        exact Option.map_id'
    _ = ((entityGroups tree).map fun t => (t.value? "id").getD []).filterMap (entityForId? v) := by
        conv_rhs => rw [← List.zipIdx_map_fst 0 (entityGroups tree), List.map_map,
          List.filterMap_map]
        rfl
    _ = v.entities.zipIdx.filterMap fun p => some (ownerOf v p) := by
        rw [h, List.filterMap_map]
        exact List.filterMap_congr hread
    _ = v.entities.zipIdx.map (ownerOf v) := by
        rw [List.filterMap_eq_map']

/-- The names are apart if each id is read as the entity that is drawn. -/
theorem namesApart_iff : NamesApart v ↔
    ∀ p ∈ v.entities.zipIdx, (ownerOf v p).name = p.1.name := by
  refine forall₂_congr fun p hp => ?_
  rw [ownerOf]
  cases hall : v.entity? (p.1.name ++ '-' :: Text.ofNat p.2) with
  | none =>
    have hnot : p.1.name ++ '-' :: Text.ofNat p.2 ∉ v.names := by
      simpa [View.entity?, View.names, List.find?_eq_none] using hall
    simp [hnot]
  | some a =>
    have ha := List.mem_of_find?_eq_some hall
    have hname : a.name = p.1.name ++ '-' :: Text.ofNat p.2 := by simpa using List.find?_some hall
    have hmem : p.1.name ++ '-' :: Text.ofNat p.2 ∈ v.names := hname ▸ List.mem_map_of_mem ha
    simp [hmem, hname]

theorem ownerOf_mem {p : EntityRecord × Nat} (h : p.1 ∈ v.entities) : ownerOf v p ∈ v.entities := by
  rw [ownerOf]
  cases hall : v.entity? (p.1.name ++ '-' :: Text.ofNat p.2) with
  | none => exact h
  | some a => exact List.mem_of_find?_eq_some hall

theorem nodup_names_ofSource (s : Source) : (View.ofSource s).names.Nodup :=
  Reader.nodup_names (r := Reader.start s) List.nodup_nil

/-- Every entity comes back from its own group, with all that the source says about it, if and only if
no entity is named like another one with its position behind it. -/
theorem pairsWithEntities_iff (h : DrawsEntities tree (View.ofSource source)) :
    PairsWithEntities tree source ↔ NamesApart (View.ofSource source) := by
  have hnodup := nodup_names_ofSource source
  have howners := map_snd_groupPairs hnodup h
  have hobjects : (entityRelation tree source).objects.entities =
      ((entityPairs tree (View.ofSource source)).map Prod.snd).map entityObject := by
    simp [entityRelation, withUnmarked, Function.comp_def]
  have hrecords : (View.ofSource source).entities.zipIdx.map Prod.fst =
      (View.ofSource source).entities := List.zipIdx_map_fst 0 _
  rw [PairsWithEntities, namesApart_iff, hobjects, entityPairs_eq]
  constructor
  · intro hpairs
    -- As many objects as groups come out, so no group is left out.
    have hlength := congrArg List.length hpairs
    have hall := congrArg List.length howners
    simp only [List.length_map, List.length_zipIdx] at hlength hall
    rw [(firstOfEach_sublist _ _).eq_of_length (hlength.trans hall.symm), howners, ← hrecords,
      List.map_map, List.map_map, hrecords] at hpairs
    exact fun p hp => congrArg EntityObject.name (List.map_inj_left.1 hpairs p hp)
  · intro howner
    -- The owners have the names of the entities, so they are the entities, and no name comes twice.
    have hown : (groupPairs tree (View.ofSource source)).map Prod.snd =
        (View.ofSource source).entities :=
      calc (groupPairs tree (View.ofSource source)).map Prod.snd
          = (View.ofSource source).entities.zipIdx.map (ownerOf (View.ofSource source)) := howners
        _ = (View.ofSource source).entities.zipIdx.map Prod.fst :=
            List.map_congr_left fun p hp =>
              have hmem := List.fst_mem_of_mem_zipIdx hp
              List.inj_on_of_nodup_map hnodup (ownerOf_mem hmem) hmem (howner p hp)
        _ = (View.ofSource source).entities := hrecords
    rw [firstOfEach_eq_self, hown]
    · rfl
    · have hnames := hnodup
      rw [View.names, ← hown, List.map_map] at hnames
      exact hnames

/-- Names may hold dashes and numbers, and may begin with the name of another entity. -/
theorem pairsWithEntities_dashes :
    let source := Source.ofText "erDiagram\nA \x7b\nint x\n\x7d\nA-1\nA-1-7 \x7do--|| A-1 : has".toList
    let tree := (Tree.ofText? true ("<svg><g id='entity-A-0'/><g id='entity-A-1-1'/>" ++
      "<g id='entity-A-1-7-2'/></svg>").toList).getD {}
    DrawsEntities tree (View.ofSource source) ∧ PairsWithEntities tree source := by
  intro source tree
  have hdraws : DrawsEntities tree (View.ofSource source) := by decide +kernel
  exact ⟨hdraws, (pairsWithEntities_iff hdraws).2 (by decide +kernel)⟩

/-- The group of the first entity is taken for the one that is named like it with a zero behind. -/
theorem not_pairsWithEntities :
    let source := Source.ofText "erDiagram\nA\nA-0".toList
    let tree := (Tree.ofText? true
      "<svg><g id='entity-A-0'/><g id='entity-A-0-1'/></svg>".toList).getD {}
    DrawsEntities tree (View.ofSource source) ∧
      (entityRelation tree source).objects.entities.map (·.name) = ["A-0".toList] ∧
      ¬ PairsWithEntities tree source := by
  intro source tree
  exact ⟨by decide +kernel, by decide +kernel, by decide +kernel⟩

end DiagramEditor.Extraction
