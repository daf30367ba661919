import DiagramEditor.Proofs.Edit.EntityRelation.Basic
import DiagramEditor.Proofs.Edit.Basic
import DiagramEditor.Proofs.EntityRelation.Flat

/-!
# Edits of flat entity diagrams

Names of entities are checked before they are written, or are found in the diagram. The types, names
and comments of attributes and the labels of relationships are written as they are given
(`EntityOp.freeTexts`). If those have no line breaks, every edit of an entity diagram leaves a flat
source behind (`apply_isFlat`).
-/

namespace DiagramEditor

/-- The texts of an attribute. -/
def EntityRelation.Attribute.texts (a : EntityRelation.Attribute) : List Text :=
  a.type :: a.name :: a.comment.toList

/-- The texts that the edit writes without having checked them. -/
def EntityOp.freeTexts : EntityOp → List Text
  | addAttribute _ new => new.texts
  | updateAttribute _ _ new => new.texts
  | addRelationship new => [new.label]
  | updateRelationship _ patch => patch.label.toList
  | _ => []

namespace Edit.EntityRelation

open DiagramEditor.EntityRelation Text Source

variable {s : Source} {v : View} {name : Text} {new : Attribute} {attributes : List Attribute}

/-! ## What is required -/

theorem requireEntity_isFlat (hv : v.IsFlat) :
    Ensures (requireEntity v name) fun e => e.IsFlat ∧ Text.IsFlat name := by
  intro e he
  obtain ⟨hmem, hname⟩ := View.entity?_eq_some (requireEntity_eq_ok he)
  have hflat := hv.entities e hmem
  exact ⟨hflat, hname ▸ hflat.name⟩

theorem isFlat_of_checkEntity (h : requireIdentifier (Identifier.checkEntity name) name = .ok ()) :
    Text.IsFlat name :=
  isFlat_of_requireIdentifier (by decide) (by decide) h

/-! ## Attributes -/

theorem tidy_isFlat (h : AllFlat new.texts) : (tidy new).IsFlat := by
  obtain ⟨htype, h⟩ := allFlat_cons.1 h
  obtain ⟨hname, h⟩ := allFlat_cons.1 h
  refine ⟨htype.trim, hname.trim, fun text htext => ?_⟩
  exact allFlat_toList.1 h text (Option.filter_eq_some_iff.1 htext).1

theorem headerText_isFlat {e : EntityRecord} (h : e.IsFlat) : Text.IsFlat (headerText e) := by
  rw [headerText]
  split
  · next title htitle =>
    exact isFlat_append.2 ⟨isFlat_append.2 ⟨h.name, isFlat_cons.2 ⟨by decide,
      (h.title title htitle).quote⟩⟩, by decide⟩
  · exact h.name

theorem writeAsBlock_isFlat {e : EntityRecord} (h : s.IsFlat) (he : e.IsFlat)
    (hattributes : ∀ a ∈ attributes, a.IsFlat) :
    Ensures (writeAsBlock e attributes v s) Source.IsFlat := by
  rw [writeAsBlock]
  split
  · refine (lineAt_isFlat h).bind fun line hline => (deleteLines_isFlat h).bind fun s hs => ?_
    exact insertLines_isFlat hs (isFlat_renderBlock hline.indent (headerText_isFlat he) hattributes)
  · refine .ok (pushLines_isFlat h ?_)
    exact isFlat_renderBlock (bodyIndent_isFlat h _) (headerText_isFlat he) hattributes

theorem attributes_isFlat {e : EntityRecord} (he : e.IsFlat) :
    ∀ a ∈ e.attributes.map Prod.snd, a.IsFlat := by
  intro a ha
  obtain ⟨p, hp, rfl⟩ := List.mem_map.1 ha
  exact he.attributes p hp

theorem addAttribute_isFlat (h : s.IsFlat) (hnew : AllFlat new.texts) :
    LeavesFlat (addAttribute name new s) := by
  intro edited hok
  obtain ⟨e, he, hok⟩ := addAttribute_eq_ok hok
  have he := (View.isFlat_ofSource h).entities e (View.entity?_eq_some he).1
  have hnew := tidy_isFlat hnew
  rcases hok with ⟨span, header, -, hheader, hok⟩ | ⟨-, hok⟩
  · refine insertLines_isFlat h (allFlat_cons.2 ⟨?_, allFlat_nil⟩) _ hok
    exact isFlat_append.2 ⟨isFlat_append.2 ⟨(lineAt_isFlat h _ hheader).indent, by decide⟩,
      hnew.render⟩
  · refine writeAsBlock_isFlat h he (List.forall_mem_append.2 ⟨attributes_isFlat he, ?_⟩) _ hok
    exact List.forall_mem_singleton.2 hnew

theorem updateAttribute_isFlat {attr : Text} (h : s.IsFlat) (hnew : AllFlat new.texts) :
    LeavesFlat (updateAttribute name attr new s) := by
  intro edited hok
  obtain ⟨e, i, -, he, -, -, hok⟩ := updateAttribute_eq_ok hok
  have he := (View.isFlat_ofSource h).entities e (View.entity?_eq_some he).1
  have hnew := tidy_isFlat hnew
  rcases hok with ⟨line, -, hline, hok⟩ | ⟨-, hok⟩
  · refine replaceLine_isFlat h ?_ _ hok
    exact isFlat_append.2 ⟨(lineAt_isFlat h _ hline).indent, hnew.render⟩
  · refine writeAsBlock_isFlat h he (fun a ha => ?_) _ hok
    obtain ⟨p, hp, rfl⟩ := List.mem_map.1 ha
    split
    exacts [hnew, he.attributes p hp]

theorem deleteAttribute_isFlat {attr : Text} (h : s.IsFlat) :
    LeavesFlat (deleteAttribute name attr s) := by
  intro edited hok
  obtain ⟨e, i, -, he, -, -, hok⟩ := deleteAttribute_eq_ok hok
  have he := (View.isFlat_ofSource h).entities e (View.entity?_eq_some he).1
  rcases hok with ⟨-, hok⟩ | ⟨-, hok⟩
  · exact deleteLines_isFlat h _ hok
  · refine writeAsBlock_isFlat h he (fun a ha => ?_) _ hok
    exact attributes_isFlat he a (List.mem_filter.1 ha).1

/-! ## Entities -/

theorem writeEntity_isFlat (h : s.IsFlat) (hname : Text.IsFlat name) :
    LeavesFlat (writeEntity name s) := by
  refine (ensureDeclaration_isFlat h .er _).bind fun ⟨s, declaration⟩ hs => ?_
  refine .ok (pushLines_isFlat hs (isFlat_renderBlock (bodyIndent_isFlat hs _) hname ?_))
  exact List.forall_mem_singleton.2 ⟨by decide, by decide, nofun⟩

theorem addEntity_isFlat (h : s.IsFlat) (name : Option Text) (ids : IdAllocator) :
    LeavesFlat (addEntity name s ids).1 := by
  cases name with
  | some name =>
    refine .after fun _ hname => writeEntity_isFlat h ?_
    obtain ⟨⟨⟩, hcheck, -⟩ := bind_eq_ok.1 hname
    exact isFlat_of_checkEntity hcheck
  | none => exact writeEntity_isFlat h (isFlat_append.2 ⟨by decide, isFlat_ofNat _⟩)

theorem renameEntity_isFlat {newName : Text} (h : s.IsFlat) :
    LeavesFlat (renameEntity name newName s) := by
  refine .after fun _ _ => .after fun _ hname => ?_
  have hrenamed : (renameIn (View.ofSource s)
      ((View.ofSource s).declarationLine.elim 0 (· + 1)) name newName s).IsFlat := by
    intro line hline
    obtain ⟨i, hi, rfl⟩ := List.mem_mapIdx.1 hline
    have hflat := h _ (List.getElem_mem hi)
    split
    exacts [hflat, hflat.replaceWord (isFlat_of_checkEntity hname)]
  split
  · exact .after fun _ h => nomatch h
  · exact .ok hrenamed

theorem deleteEntity_isFlat (h : s.IsFlat) : LeavesFlat (deleteEntity name s) :=
  .after fun _ _ => .ok (deleteLineSet_isFlat h _)

/-! ## Relationships -/

theorem addRelationship_isFlat {new : Relationship} (h : s.IsFlat) (hlabel : Text.IsFlat new.label) :
    LeavesFlat (addRelationship new s) := by
  have hv := View.isFlat_ofSource h
  refine (requireEntity_isFlat hv).bind fun _ ⟨_, h1⟩ => ?_
  refine (requireEntity_isFlat hv).bind fun _ ⟨_, h2⟩ => .ok (pushLine_isFlat h ?_)
  exact Relationship.IsFlat.render ⟨h1, h2, hlabel.trim⟩ (bodyIndent_isFlat h _)

/-- The entities that a patch names are in the diagram. -/
theorem isFlat_of_forM {name : Option Text} (hv : v.IsFlat)
    (h : (name.forM fun name => discard (requireEntity v name)) = .ok ()) :
    ∀ text ∈ name, Text.IsFlat text := by
  rintro text ⟨⟩
  obtain ⟨e, he, -⟩ := map_eq_ok.1 h
  exact (requireEntity_isFlat hv e he).2

theorem updateRelationship_isFlat {index : Nat} {p : RelationshipPatch} (h : s.IsFlat)
    (hlabel : ∀ text ∈ p.label, Text.IsFlat text) : LeavesFlat (updateRelationship index p s) := by
  have hv := View.isFlat_ofSource h
  refine .after fun r hr => .after fun _ h1 => .after fun _ h2 => ?_
  have h1 := isFlat_of_forM hv h1
  have h2 := isFlat_of_forM hv h2
  refine .after fun line hline => (replaceLine_isFlat h ?_).bind fun _ hs => .ok hs
  have hrel := hv.relationships r (List.mem_of_getElem? (requireRelationship_eq_ok hr))
  refine Relationship.IsFlat.render ⟨?_, ?_, ?_⟩ (lineAt_isFlat h line hline).indent
  · exact isFlat_getD h1 hrel.entity1
  · exact isFlat_getD h2 hrel.entity2
  · refine isFlat_getD (fun text htext => ?_) hrel.label
    obtain ⟨raw, hraw, rfl⟩ := Option.map_eq_some_iff.1 htext
    exact (hlabel raw hraw).trim

theorem deleteRelationship_isFlat {index : Nat} (h : s.IsFlat) :
    LeavesFlat (deleteRelationship index s) :=
  .after fun _ _ => (deleteLines_isFlat h).bind fun _ hs => .ok hs

/-! ## All edits -/

/-- An edit of a flat entity diagram with flat texts leaves a flat source behind. -/
theorem apply_isFlat {op : EntityOp} (h : s.IsFlat) (hop : AllFlat op.freeTexts)
    (ids : IdAllocator) : LeavesFlat (apply op s ids).1 := by
  cases op with
  | addEntity name => exact addEntity_isFlat h name ids
  | renameEntity => exact renameEntity_isFlat h
  | deleteEntity => exact deleteEntity_isFlat h
  | addAttribute entity new => exact addAttribute_isFlat h hop
  | updateAttribute entity name new => exact updateAttribute_isFlat h hop
  | deleteAttribute => exact deleteAttribute_isFlat h
  | addRelationship new => exact addRelationship_isFlat h (allFlat_cons.1 hop).1
  | updateRelationship index patch => exact updateRelationship_isFlat h (allFlat_toList.1 hop)
  | deleteRelationship => exact deleteRelationship_isFlat h

end Edit.EntityRelation

end DiagramEditor
