import DiagramEditor.Proofs.EntityRelation.View
import Mathlib.Data.List.Basic

/-!
# What an entity diagram says, line numbers apart

What a line does depends on the lines before it only through the block that is open, and not on line
numbers (`effects`). The effects of all lines determine what the view says: its relationships in
order, the names of its entities, and the title and the attributes of each of them
(`View.map_relationship_ofSource`, `View.names_ofSource`, `View.content_ofSource`).

So a change of the source can be followed in its effects. Where a stretch of lines that concern one
entity only is replaced by another such stretch, the view says the same about everything else
(`Stretch.agreesExcept`).
-/

namespace DiagramEditor.EntityRelation

open Text Source

variable {r : Reader} {inside next : Option Text} {lines : List (Nat × Text)} {line : Nat}
  {text name other : Text} {texts more : List Text} {effect : Effect}

/-! ## Effects of lines -/

/-- The entity whose block is open behind the lines. -/
def insideAfter (inside : Option Text) (texts : List Text) : Option Text :=
  texts.foldl (fun inside text => (Effect.ofLine inside text).next inside) inside

/-- The effects of the lines, one after the other. -/
def effects : (inside : Option Text) → List Text → List Effect
  | _, [] => []
  | inside, text :: texts =>
    Effect.ofLine inside text :: effects ((Effect.ofLine inside text).next inside) texts

theorem insideAfter_cons (inside : Option Text) (text : Text) (texts : List Text) :
    insideAfter inside (text :: texts) =
      insideAfter ((Effect.ofLine inside text).next inside) texts := rfl

theorem insideAfter_append (inside : Option Text) (texts more : List Text) :
    insideAfter inside (texts ++ more) = insideAfter (insideAfter inside texts) more :=
  List.foldl_append

theorem effects_append (inside : Option Text) (texts more : List Text) :
    effects inside (texts ++ more) = effects inside texts ++ effects (insideAfter inside texts) more := by
  induction texts generalizing inside with
  | nil => rfl
  | cons text texts ih => rw [List.cons_append, effects, effects, ih]; rfl

theorem Reader.openEntity_readAll (r : Reader) (lines : List (Nat × Text)) :
    (r.readAll lines).openEntity = insideAfter r.openEntity (lines.map Prod.snd) := by
  induction lines generalizing r with
  | nil => rfl
  | cons p lines ih => rw [readAll_cons, ih, openEntity_step, List.map_cons, insideAfter_cons]

/-- The effect of a line is what it does at its place. -/
theorem Reader.effects_eq (r : Reader) (lines : List (Nat × Text)) :
    effects r.openEntity (lines.map Prod.snd) =
      (r.places lines).map fun q => Effect.ofLine q.2.2 q.2.1 := by
  induction lines generalizing r with
  | nil => rfl
  | cons p lines ih => rw [List.map_cons, effects, places, List.map_cons, ← ih, openEntity_step]

theorem Reader.map_relationship_readAll (r : Reader) (lines : List (Nat × Text)) :
    (r.readAll lines).view.relationships.map (·.relationship) =
      r.view.relationships.map (·.relationship) ++
        (effects r.openEntity (lines.map Prod.snd)).filterMap Effect.relationship? := by
  have h := congrArg (List.map Prod.snd) (r.relationships_readAll lines)
  rw [List.map_append, List.map_map, List.map_map, List.map_filterMap] at h
  refine h.trans (congrArg (_ ++ ·) ?_)
  rw [effects_eq, List.filterMap_map]
  refine List.filterMap_congr fun q _ => ?_
  rw [Option.map_map, Function.comp_def, Option.map_id', Function.comp_apply]

/-! ## Names -/

/-- The entities that a line with this effect names. -/
def Effect.names : Effect → List Text
  | .skip => []
  | .close name => [name]
  | .addAttribute name _ => [name]
  | .relationship rel => [rel.entity1, rel.entity2]
  | .header h => [h.name]

namespace Effect

/-- The block that a line leaves open is one that it names, or was open. -/
theorem mem_names_of_next (h : name ∈ effect.next inside) : name ∈ effect.names ∨ name ∈ inside := by
  cases effect with
  | close n => cases h
  | header header =>
    rw [next] at h
    split at h
    · exact .inl (List.mem_singleton.2 (Option.some.inj h).symm)
    · cases h
  | _ => exact .inr h

end Effect

/-- The names with one more at the end, unless it is there already. -/
def addName (names : List Text) (name : Text) : List Text :=
  if name ∈ names then names else names ++ [name]

namespace View

variable {v : View} {f : EntityRecord → EntityRecord}

theorem names_alter (hf : ∀ e, (f e).name = e.name) : (v.alter name f).names = addName v.names name :=
  map_name_alterEntity hf

end View

theorem Reader.names_act (r : Reader) (line : Nat) (effect : Effect) :
    (r.act line effect).view.names = effect.names.foldl addName r.view.names := by
  cases effect with
  | skip => rfl
  | close name => exact View.names_alter fun _ => rfl
  | addAttribute name a => exact View.names_alter fun _ => rfl
  | relationship rel =>
    exact (View.names_alter fun _ => rfl).trans (congrArg (addName · _) (View.names_alter fun _ => rfl))
  | header h => exact View.names_alter fun e => e.name_declare line h

theorem Reader.names_readAll (r : Reader) (lines : List (Nat × Text)) :
    (r.readAll lines).view.names =
      ((effects r.openEntity (lines.map Prod.snd)).flatMap Effect.names).foldl addName r.view.names := by
  induction lines generalizing r with
  | nil => rfl
  | cons p lines ih =>
    rw [readAll_cons, ih, openEntity_step, List.map_cons, effects, List.flatMap_cons,
      List.foldl_append, step_eq, names_act]

theorem mem_foldl_addName {names more : List Text} :
    name ∈ more.foldl addName names ↔ name ∈ names ∨ name ∈ more := by
  induction more generalizing names with
  | nil => simp
  | cons m more ih =>
    have hadd : name ∈ addName names m ↔ name ∈ names ∨ name = m := by
      rw [addName]
      split
      · next hmem => exact ⟨.inl, fun h => h.elim id fun heq => heq ▸ hmem⟩
      · rw [List.mem_append, List.mem_singleton]
    rw [List.foldl_cons, ih, hadd, List.mem_cons, or_assoc]

/-- The names but one are added up without it. -/
theorem filter_foldl_addName (name : Text) (names more : List Text) :
    (more.foldl addName names).filter (· ≠ name) =
      (more.filter (· ≠ name)).foldl addName (names.filter (· ≠ name)) := by
  induction more generalizing names with
  | nil => rfl
  | cons m more ih =>
    rw [List.foldl_cons, ih, addName]
    by_cases hm : m = name
    · rw [List.filter_cons_of_neg (by simpa using hm)]
      split
      · rfl
      · rw [List.filter_append, List.filter_cons_of_neg (by simpa using hm), List.filter_nil,
          List.append_nil]
    · rw [List.filter_cons_of_pos (by simpa using hm), List.foldl_cons, addName]
      have hiff : m ∈ names.filter (· ≠ name) ↔ m ∈ names := by simp [hm]
      simp only [hiff]
      split
      · rfl
      · rw [List.filter_append, List.filter_cons_of_pos (by simpa using hm), List.filter_nil]

/-! ## Entities -/

/-- What is known about an entity, without the lines that say it. -/
structure EntityContent where
  /-- Some line declares the entity. -/
  declared : Bool := false
  title : Option Text := none
  attributes : List Attribute := []
deriving DecidableEq, Repr

/-- What the record holds, without the lines that say it. -/
def EntityRecord.content (e : EntityRecord) : EntityContent :=
  ⟨e.span.isSome, e.title, e.attributes.map Prod.snd⟩

/-- What the view says about the entity of this name. -/
def View.content (v : View) (name : Text) : EntityContent :=
  ((v.entity? name).getD { name }).content

/-- The attributes that a header brings. -/
def EntityForm.attributes : EntityForm → List Attribute
  | .inline attributes => attributes
  | _ => []

/-- What is known about the entity `name` behind a line with this effect. -/
def Effect.onContent (name : Text) (c : EntityContent) : Effect → EntityContent
  | .addAttribute owner a =>
    if owner = name then { c with attributes := c.attributes ++ [a] } else c
  | .header h =>
    if h.name = name then ⟨true, h.title.or c.title, c.attributes ++ h.form.attributes⟩ else c
  | _ => c

theorem EntityRecord.content_declare (line : Nat) (h : EntityHeader) (e : EntityRecord) :
    (e.declare line h).content =
      ⟨true, h.title.or e.title, e.attributes.map Prod.snd ++ h.form.attributes⟩ := by
  have hspan : (e.span.or (some (.single line))).isSome = true := by cases e.span <;> rfl
  rw [declare]
  split
  · next as has =>
    rw [has, content, EntityForm.attributes, List.map_append, List.map_map, hspan]
    exact congrArg (EntityContent.mk true _ <| _ ++ ·) (List.map_id as)
  · next hform =>
    rw [content, hspan]
    cases hcases : h.form with
    | inline as => exact absurd hcases (hform as)
    | _ => exact congrArg (EntityContent.mk true _) (List.append_nil _).symm

namespace View

variable {v : View} {f : EntityRecord → EntityRecord}

theorem entity?_alter (hf : ∀ e, (f e).name = e.name) : (v.alter name f).entity? other =
    if other = name then some (f ((v.entity? name).getD { name })) else v.entity? other := by
  rw [entity?, entity?, entity?, alter]
  -- An alteration stops at the first entity of the name, and so does the search.
  induction v.entities with
  | nil =>
    rw [alterEntity]
    by_cases h : other = name
    · simp [h, hf]
    · simp [h, hf, Ne.symm h]
  | cons e es ih =>
    rw [alterEntity]
    by_cases he : e.name = name
    · by_cases h : other = name
      · simp [he, h, hf]
      · simp [he, h, hf, Ne.symm h]
    · rw [if_neg he]
      by_cases h : other = name
      · subst h
        rw [if_pos rfl] at ih ⊢
        rw [List.find?_cons_of_neg (by simpa using he), List.find?_cons_of_neg (by simpa using he)]
        exact ih
      · rw [if_neg h] at ih ⊢
        rw [List.find?_cons, List.find?_cons]
        split
        · rfl
        · exact ih

theorem content_alter (hf : ∀ e, (f e).name = e.name) : (v.alter name f).content other =
    if other = name then (f ((v.entity? name).getD { name })).content else v.content other := by
  rw [content, entity?_alter hf]
  split <;> rfl

/-- What is known about a known entity. -/
theorem map_content_entity? (v : View) (name : Text) :
    (v.entity? name).map EntityRecord.content =
      if name ∈ v.names then some (v.content name) else none := by
  have hiff : (v.entity? name).isSome ↔ name ∈ v.names := by
    simp [entity?, names]
  rw [content]
  cases he : v.entity? name with
  | none => rw [he] at hiff; rw [if_neg fun h => nomatch hiff.2 h]; rfl
  | some e => rw [he] at hiff; rw [if_pos (hiff.1 rfl)]; rfl

end View

theorem Reader.content_act (r : Reader) (line : Nat) (effect : Effect) (name : Text) :
    (r.act line effect).view.content name = effect.onContent name (r.view.content name) := by
  have hsame : ∀ (v : View) (other : Text), (v.alter other id).content name = v.content name := by
    intro v other
    rw [View.content_alter (f := id) fun _ => rfl]
    split
    · next h => rw [h]; rfl
    · rfl
  cases effect with
  | skip => rfl
  | close owner =>
    refine (View.content_alter (f := (·.close line)) fun _ => rfl).trans ?_
    split
    · next h =>
      rw [h, EntityRecord.close, EntityRecord.content, Option.isSome_map]
      rfl
    · rfl
  | addAttribute owner a =>
    refine (View.content_alter (f := (·.addAttribute line a)) fun _ => rfl).trans ?_
    rw [Effect.onContent]
    simp only [eq_comm (a := name)]
    split
    · next h =>
      rw [← h, View.content, EntityRecord.addAttribute, EntityRecord.content, List.map_append]
      rfl
    · rfl
  | relationship rel => exact (hsame _ _).trans (hsame _ _)
  | header h =>
    refine (View.content_alter fun e => e.name_declare line h).trans ?_
    rw [Effect.onContent]
    simp only [eq_comm (a := name)]
    split
    · next heq => rw [EntityRecord.content_declare, ← heq]; rfl
    · rfl

theorem Reader.content_readAll (r : Reader) (lines : List (Nat × Text)) (name : Text) :
    (r.readAll lines).view.content name =
      (effects r.openEntity (lines.map Prod.snd)).foldl (Effect.onContent name)
        (r.view.content name) := by
  induction lines generalizing r with
  | nil => rfl
  | cons p lines ih =>
    rw [readAll_cons, ih, openEntity_step, List.map_cons, effects, List.foldl_cons, step_eq,
      content_act]

/-! ## Sources -/

/-- The lines of the body. -/
def bodyTexts (s : Source) : List Text :=
  (s.body .er).map Prod.snd

namespace View

variable (s : Source)

theorem map_relationship_ofSource : (View.ofSource s).relationships.map (·.relationship) =
    (effects none (bodyTexts s)).filterMap Effect.relationship? :=
  Reader.map_relationship_readAll (Reader.start s) (s.body .er)

theorem names_ofSource :
    (View.ofSource s).names = ((effects none (bodyTexts s)).flatMap Effect.names).foldl addName [] :=
  Reader.names_readAll (Reader.start s) (s.body .er)

theorem content_ofSource (name : Text) : (View.ofSource s).content name =
    (effects none (bodyTexts s)).foldl (Effect.onContent name) {} :=
  Reader.content_readAll (Reader.start s) (s.body .er) name

theorem isNumbered_ofSource : (View.ofSource s).IsNumbered :=
  Reader.isNumbered_readAll rfl

end View

/-! ## Stretches about one entity -/

/-- The line names no other entity. -/
def Effect.Concerns (name : Text) (effect : Effect) : Prop :=
  effect.relationship? = none ∧ ∀ owner ∈ effect.names, owner = name

instance (name : Text) : DecidablePred (Effect.Concerns name) := fun effect =>
  inferInstanceAs (Decidable (effect.relationship? = none ∧ ∀ owner ∈ effect.names, owner = name))

theorem Effect.onContent_of_concerns (h : effect.Concerns name) (hother : other ≠ name)
    (c : EntityContent) : effect.onContent other c = c := by
  have hne : ∀ owner ∈ effect.names, owner ≠ other := fun owner ho heq =>
    hother (heq.symm.trans (h.2 owner ho))
  cases effect with
  | addAttribute owner a => exact if_neg (hne owner List.mem_cons_self)
  | header header => exact if_neg (hne header.name List.mem_cons_self)
  | _ => rfl

/-- The two views say the same, one entity apart. -/
structure View.AgreesExcept (name : Text) (v w : View) : Prop where
  relationships : w.relationships.map (fun r => (r.index, r.relationship)) =
    v.relationships.map fun r => (r.index, r.relationship)
  /-- The other entities, in order. -/
  names : w.names.filter (· ≠ name) = v.names.filter (· ≠ name)
  /-- What is known about them. -/
  entity? : ∀ other, other ≠ name → (w.entity? other).map EntityRecord.content =
    (v.entity? other).map EntityRecord.content

/-- These lines, read where the block of `inside` is open, leave that of `next` open and concern one
entity only. -/
structure Stretch (name : Text) (inside next : Option Text) (texts : List Text) : Prop where
  insideAfter : insideAfter inside texts = next
  concerns : ∀ effect ∈ effects inside texts, effect.Concerns name

namespace Stretch

theorem nil (name : Text) (inside : Option Text) : Stretch name inside inside [] :=
  ⟨rfl, nofun⟩

theorem append {between : Option Text} (h : Stretch name inside between texts)
    (h' : Stretch name between next more) : Stretch name inside next (texts ++ more) := by
  obtain ⟨rfl, hconcerns⟩ := h
  refine ⟨(insideAfter_append ..).trans h'.insideAfter, ?_⟩
  rw [effects_append]
  exact List.forall_mem_append.2 ⟨hconcerns, h'.concerns⟩

theorem singleton (h : (Effect.ofLine inside text).Concerns name)
    (hnext : (Effect.ofLine inside text).next inside = next) : Stretch name inside next [text] :=
  ⟨hnext, List.forall_mem_singleton.2 h⟩

theorem filterMap_relationship? (h : Stretch name inside next texts) :
    (effects inside texts).filterMap Effect.relationship? = [] :=
  List.filterMap_eq_nil_iff.2 fun effect he => (h.concerns effect he).1

theorem filter_names (h : Stretch name inside next texts) :
    ((effects inside texts).flatMap Effect.names).filter (· ≠ name) = [] := by
  refine List.filter_eq_nil_iff.2 fun owner ho => ?_
  obtain ⟨effect, he, ho⟩ := List.mem_flatMap.1 ho
  simpa using (h.concerns effect he).2 owner ho

theorem foldl_onContent (h : Stretch name inside next texts) (hother : other ≠ name)
    (c : EntityContent) : (effects inside texts).foldl (Effect.onContent other) c = c :=
  List.foldlRecOn (effects inside texts) _ (motive := (· = c)) rfl fun b hb effect he =>
    (Effect.onContent_of_concerns (h.concerns effect he) hother b).trans hb

/-- Where one stretch takes the place of another, the view says the same about everything else. -/
theorem agreesExcept {s s' : Source} {before after texts' : List Text}
    (h : Stretch name (EntityRelation.insideAfter none before) next texts)
    (h' : Stretch name (EntityRelation.insideAfter none before) next texts')
    (hs : bodyTexts s = before ++ texts ++ after) (hs' : bodyTexts s' = before ++ texts' ++ after) :
    View.AgreesExcept name (View.ofSource s) (View.ofSource s') := by
  -- Both stretches leave the same block open, so the lines behind them do the same.
  have heffects : ∀ {ts}, Stretch name (EntityRelation.insideAfter none before) next ts →
      effects none (before ++ ts ++ after) = effects none before ++
        effects (EntityRelation.insideAfter none before) ts ++ effects next after := by
    intro ts hts
    rw [effects_append, effects_append, insideAfter_append, hts.insideAfter]
  have hrelationship : (View.ofSource s').relationships.map (·.relationship) =
      (View.ofSource s).relationships.map (·.relationship) := by
    rw [View.map_relationship_ofSource, View.map_relationship_ofSource, hs, hs', heffects h,
      heffects h']
    simp only [List.filterMap_append, h.filterMap_relationship?, h'.filterMap_relationship?]
  have hnames : (View.ofSource s').names.filter (· ≠ name) =
      (View.ofSource s).names.filter (· ≠ name) := by
    rw [View.names_ofSource, View.names_ofSource, hs, hs', heffects h, heffects h',
      filter_foldl_addName, filter_foldl_addName]
    simp only [List.flatMap_append, List.filter_append, h.filter_names, h'.filter_names]
  have hcontent : ∀ other, other ≠ name →
      (View.ofSource s').content other = (View.ofSource s).content other := by
    intro other hother
    rw [View.content_ofSource, View.content_ofSource, hs, hs', heffects h, heffects h']
    simp only [List.foldl_append, h.foldl_onContent hother, h'.foldl_onContent hother]
  refine ⟨?_, hnames, fun other hother => ?_⟩
  · -- The positions count the relationships, and these are as many as before.
    have hlength := congrArg List.length hrelationship
    rw [List.length_map, List.length_map] at hlength
    have hindex : (View.ofSource s').relationships.map (·.index) =
        (View.ofSource s).relationships.map (·.index) := by
      rw [View.isNumbered_ofSource s', View.isNumbered_ofSource s, hlength]
    rw [← List.zip_map', ← List.zip_map', hindex, hrelationship]
  · have hmem : other ∈ (View.ofSource s').names ↔ other ∈ (View.ofSource s).names := by
      have := congrArg (other ∈ ·) hnames
      simpa [hother] using this
    rw [View.map_content_entity?, View.map_content_entity?, hcontent other hother]
    simp only [hmem]

end Stretch

end DiagramEditor.EntityRelation
