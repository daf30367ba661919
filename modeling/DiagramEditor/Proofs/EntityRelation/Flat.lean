import DiagramEditor.Proofs.EntityRelation.Line
import DiagramEditor.Proofs.Source.Reload

/-!
# Entity diagrams without line breaks

What is read from a flat line is flat, and so is everything that the view of a flat source holds
(`View.isFlat_ofSource`). The written forms of flat parts are flat as well.
-/

namespace DiagramEditor.EntityRelation

open Text

variable {s line rest indent name : Text} {words : List Text}

/-! ## Attributes -/

/-- No text of the attribute has a line break. -/
structure Attribute.IsFlat (a : Attribute) : Prop where
  type : Text.IsFlat a.type
  name : Text.IsFlat a.name
  comment : ∀ text ∈ a.comment, Text.IsFlat text

namespace Attribute

theorem isFlat_ofWords? {as : List Attribute} (h : AllFlat words) (hread : ofWords? words = some as) :
    ∀ a ∈ as, a.IsFlat := by
  intro a ha
  obtain ⟨⟨htype, hname, hcomment⟩, -⟩ :=
    forall_ofWords? (P := Text.IsFlat) (fun _ => Text.IsFlat.unquote) h hread a ha
  exact ⟨htype, hname, hcomment⟩

theorem isFlat_ofLine? {a : Attribute} (h : Text.IsFlat line) (hread : ofLine? line = some a) :
    a.IsFlat :=
  isFlat_ofWords? (allFlat_wordsOutside h.trim) (ofLine?_eq_some hread).2.2 a List.mem_cons_self

theorem IsFlat.render {a : Attribute} (h : a.IsFlat) : Text.IsFlat a.render :=
  (isFlat_append.2 ⟨by decide, isFlat_append.2 ⟨h.type, isFlat_append.2 ⟨h.name,
    isFlat_getD h.comment isFlat_nil⟩⟩⟩).subset (render_subset a)

end Attribute

/-! ## Entities and relationships -/

/-- No text of the header has a line break. -/
structure EntityHeader.IsFlat (h : EntityHeader) : Prop where
  name : Text.IsFlat h.name
  title : ∀ text ∈ h.title, Text.IsFlat text
  attributes : ∀ as, h.form = .inline as → ∀ a ∈ as, a.IsFlat

namespace EntityHeader

theorem isFlat_scanTitle? {title : Option Text} (h : Text.IsFlat s)
    (hs : scanTitle? s = some (title, rest)) :
    (∀ text ∈ title, Text.IsFlat text) ∧ Text.IsFlat rest := by
  rw [scanTitle?.eq_def] at hs
  split at hs
  · obtain ⟨⟨raw, after⟩, hcut, heq⟩ := Option.map_eq_some_iff.1 hs
    cases heq
    obtain ⟨hraw, hafter⟩ := (isFlat_cons.1 h).2.cutChar? hcut
    refine ⟨?_, hafter.trimStart⟩
    rintro _ ⟨⟩
    exact hraw.unquote
  · cases hs
    exact ⟨fun text htext => absurd htext (Option.not_mem_none text), h⟩

theorem isFlat_form? {as : List Attribute} (h : Text.IsFlat s) (hs : form? s = some (.inline as)) :
    ∀ a ∈ as, a.IsFlat := by
  rw [form?] at hs
  split at hs
  · cases hs
  · split at hs
    · cases hs
    · obtain ⟨body, hbody, hs⟩ := Option.bind_eq_some_iff.1 hs
      obtain ⟨front, hfront, hbody⟩ := Option.bind_eq_some_iff.1 hbody
      obtain ⟨as', has, heq⟩ := Option.bind_eq_some_iff.1 hs
      cases heq
      have hflat := (h.stripFront? hfront).stripEnd? hbody
      exact Attribute.isFlat_ofWords? (allFlat_wordsOutside hflat.trim) has

theorem isFlat_ofLine? {header : EntityHeader} (h : Text.IsFlat line)
    (hread : ofLine? line = some header) : header.IsFlat := by
  obtain ⟨-, -, hread⟩ := Option.bind_eq_some_iff.1 hread
  obtain ⟨⟨title, rest⟩, htitle, hread⟩ := Option.bind_eq_some_iff.1 hread
  obtain ⟨form, hform, heq⟩ := Option.bind_eq_some_iff.1 hread
  cases heq
  obtain ⟨htitle, hrest⟩ := isFlat_scanTitle? (h.trim.dropWhile _).trimStart htitle
  refine ⟨h.trim.takeWhile _, htitle, ?_⟩
  rintro as rfl
  exact isFlat_form? hrest hform

end EntityHeader

theorem isFlat_renderBlock {attributes : List Attribute} (hindent : Text.IsFlat indent)
    (hname : Text.IsFlat name) (hattributes : ∀ a ∈ attributes, a.IsFlat) :
    AllFlat (renderBlock indent name attributes) := by
  refine allFlat_append.2 ⟨allFlat_append.2 ⟨?_, ?_⟩, ?_⟩
  · exact allFlat_cons.2 ⟨isFlat_append.2 ⟨isFlat_append.2 ⟨hindent, hname⟩, by decide⟩, allFlat_nil⟩
  · intro text htext
    obtain ⟨a, ha, rfl⟩ := List.mem_map.1 htext
    exact isFlat_append.2 ⟨isFlat_append.2 ⟨hindent, by decide⟩, (hattributes a ha).render⟩
  · exact allFlat_cons.2 ⟨isFlat_append.2 ⟨hindent, by decide⟩, allFlat_nil⟩

/-- No text of the relationship has a line break. -/
structure Relationship.IsFlat (r : Relationship) : Prop where
  entity1 : Text.IsFlat r.entity1
  entity2 : Text.IsFlat r.entity2
  label : Text.IsFlat r.label

namespace Relationship

theorem isFlat_ofLine? {r : Relationship} (h : Text.IsFlat line) (hread : ofLine? line = some r) :
    r.IsFlat := by
  obtain ⟨⟨left, label⟩, hcut, hread⟩ := Option.bind_eq_some_iff.1 hread
  obtain ⟨hleft, hlabel⟩ := h.trim.cutChar? hcut
  have hwords := allFlat_words hleft
  dsimp only at hread
  split at hread
  · next entity1 a b c d e f entity2 heq =>
    rw [heq] at hwords
    obtain ⟨h1, hwords⟩ := allFlat_cons.1 hwords
    obtain ⟨-, hwords⟩ := allFlat_cons.1 hwords
    obtain ⟨h2, -⟩ := allFlat_cons.1 hwords
    obtain ⟨-, -, hread⟩ := Option.bind_eq_some_iff.1 hread
    obtain ⟨_, -, hread⟩ := Option.bind_eq_some_iff.1 hread
    obtain ⟨_, -, hread⟩ := Option.bind_eq_some_iff.1 hread
    obtain ⟨_, -, hread⟩ := Option.bind_eq_some_iff.1 hread
    cases hread
    exact ⟨h1, h2, hlabel.unquote⟩
  · cases hread

theorem isFlat_sign (r : Relationship) : Text.IsFlat r.sign := by
  refine isFlat_append.2 ⟨isFlat_append.2 ⟨?_, ?_⟩, ?_⟩
  · cases r.cardinality1 <;> decide
  · cases r.identification <;> decide
  · cases r.cardinality2 <;> decide

theorem IsFlat.render {r : Relationship} (h : r.IsFlat) (hindent : Text.IsFlat indent) :
    Text.IsFlat (r.render indent) := by
  have hlabel : Text.IsFlat
      (if r.label.isEmpty || r.label.any Unicode.isSpace then quote r.label else r.label) := by
    split
    exacts [h.label.quote, h.label]
  refine isFlat_append.2 ⟨isFlat_append.2 ⟨isFlat_append.2 ⟨isFlat_append.2 ⟨isFlat_append.2
    ⟨hindent, h.entity1⟩, ?_⟩, ?_⟩, by decide⟩, hlabel⟩
  exacts [isFlat_cons.2 ⟨by decide, r.isFlat_sign⟩, isFlat_cons.2 ⟨by decide, h.entity2⟩]

end Relationship

/-! ## Views -/

/-- No text that the view holds about the entity has a line break. -/
structure EntityRecord.IsFlat (e : EntityRecord) : Prop where
  name : Text.IsFlat e.name
  title : ∀ text ∈ e.title, Text.IsFlat text
  attributes : ∀ a ∈ e.attributes, a.2.IsFlat

namespace EntityRecord

variable {e : EntityRecord}

theorem isFlat_new (h : Text.IsFlat name) : IsFlat { name } :=
  ⟨h, nofun, nofun⟩

theorem IsFlat.declare {header : EntityHeader} (h : e.IsFlat) (hheader : header.IsFlat) (line : Nat) :
    (e.declare line header).IsFlat := by
  have htitle : ∀ text ∈ header.title.or e.title, Text.IsFlat text := by
    intro text htext
    rcases Option.or_eq_some_iff.1 htext with htext | ⟨-, htext⟩
    exacts [hheader.title text htext, h.title text htext]
  rw [EntityRecord.declare]
  split
  · next as has =>
    refine ⟨h.name, htitle, List.forall_mem_append.2 ⟨h.attributes, ?_⟩⟩
    intro p hp
    obtain ⟨a, ha, rfl⟩ := List.mem_map.1 hp
    exact hheader.attributes as has a ha
  · exact ⟨h.name, htitle, h.attributes⟩

theorem IsFlat.close (h : e.IsFlat) (line : Nat) : (e.close line).IsFlat :=
  ⟨h.name, h.title, h.attributes⟩

theorem IsFlat.addAttribute {a : Attribute} (h : e.IsFlat) (ha : a.IsFlat) (line : Nat) :
    (e.addAttribute line a).IsFlat :=
  ⟨h.name, h.title, List.forall_mem_append.2 ⟨h.attributes, List.forall_mem_singleton.2 ha⟩⟩

end EntityRecord

/-- No text that the view holds has a line break. -/
structure View.IsFlat (v : View) : Prop where
  entities : ∀ e ∈ v.entities, e.IsFlat
  relationships : ∀ r ∈ v.relationships, r.relationship.IsFlat

theorem View.IsFlat.alter {v : View} {f : EntityRecord → EntityRecord} (h : v.IsFlat)
    (hname : Text.IsFlat name) (hf : ∀ e, e.IsFlat → (f e).IsFlat) : (v.alter name f).IsFlat where
  entities := forall_alterEntity h.entities (hf _ (EntityRecord.isFlat_new hname)) fun e he _ =>
    hf e (h.entities e he)
  relationships := h.relationships

/-- Neither the view nor the name of the open entity has a line break. -/
structure Reader.IsFlat (r : Reader) : Prop where
  view : r.view.IsFlat
  openEntity : ∀ name ∈ r.openEntity, Text.IsFlat name

/-- No text that the effect brings has a line break. -/
def Effect.IsFlat : Effect → Prop
  | .skip => True
  | .close name => Text.IsFlat name
  | .addAttribute name a => Text.IsFlat name ∧ a.IsFlat
  | .relationship r => r.IsFlat
  | .header h => h.IsFlat

theorem Statement.isFlat_ofLine (h : Text.IsFlat line) :
    match ofLine line with
    | .relationship r => r.IsFlat
    | .entity h => h.IsFlat
    | .other => True := by
  rw [ofLine]
  cases hrel : Relationship.ofLine? line with
  | some r => exact Relationship.isFlat_ofLine? h hrel
  | none =>
    cases hheader : EntityHeader.ofLine? line with
    | some header => exact EntityHeader.isFlat_ofLine? h hheader
    | none => trivial

theorem Effect.isFlat_ofLine {inside : Option Text} (h : Text.IsFlat line)
    (hinside : ∀ name ∈ inside, Text.IsFlat name) : (ofLine inside line).IsFlat := by
  rw [ofLine.eq_def]
  split
  · trivial
  · cases inside with
    | some name =>
      have hname := hinside name rfl
      dsimp only
      split
      · exact hname
      · cases ha : Attribute.ofLine? line with
        | some a => exact ⟨hname, Attribute.isFlat_ofLine? h ha⟩
        | none => trivial
    | none =>
      have hst := Statement.isFlat_ofLine h
      dsimp only
      cases hread : Statement.ofLine line <;> rw [hread] at hst
      exacts [hst, hst, trivial]

theorem Reader.IsFlat.act {r : Reader} {effect : Effect} (h : r.IsFlat) (heffect : effect.IsFlat)
    (line : Nat) : (r.act line effect).IsFlat := by
  cases effect with
  | skip => exact h
  | close name => exact ⟨h.view.alter heffect fun e he => he.close line, nofun⟩
  | addAttribute name a =>
    exact ⟨h.view.alter heffect.1 fun e he => he.addAttribute heffect.2 line, h.openEntity⟩
  | relationship rel =>
    have hview := (h.view.alter heffect.entity1 fun _ => id).alter heffect.entity2 fun _ => id
    refine ⟨⟨hview.entities, ?_⟩, h.openEntity⟩
    exact List.forall_mem_append.2 ⟨hview.relationships, List.forall_mem_singleton.2 heffect⟩
  | header header =>
    refine ⟨h.view.alter heffect.name fun e he => he.declare heffect line, ?_⟩
    intro name hname
    dsimp only [Reader.act, Reader.stepOutside] at hname
    split at hname
    · cases hname
      exact heffect.name
    · cases hname

/-- The view of a flat source is flat. -/
theorem View.isFlat_ofSource {source : Source} (h : source.IsFlat) :
    (View.ofSource source).IsFlat := by
  have hstart : (Reader.start source).IsFlat := ⟨⟨nofun, nofun⟩, nofun⟩
  refine (Reader.readAll_invariant (P := Reader.IsFlat) hstart fun p hp r hr => ?_).view
  rw [Reader.step_eq]
  rw [Source.body, Source.numberedFrom_eq] at hp
  have hline := List.mem_map_of_mem (f := Prod.snd) hp
  rw [Source.map_snd_numbered] at hline
  exact hr.act (Effect.isFlat_ofLine (h _ (List.drop_subset _ _ hline)) hr.openEntity) p.1

end DiagramEditor.EntityRelation
