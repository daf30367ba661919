import DiagramEditor.Proofs.Edit.Flowchart.Connect
import DiagramEditor.Proofs.Flowchart.Block
import DiagramEditor.Proofs.Flowchart.Written

/-!
# Styles and classes that are added

The first property of a node or subgraph and every class that is given to it become a directive at
the end of the source. A directive never changes the blocks or the kind, and the view has what it says
and is otherwise as before (`addsDirective_pushLine`). What it says depends on the id alone, which is
written as it is: the directive is about this id exactly if the id is an identifier, and the title of a
subgraph need not be one (`applyOps_restyle_iff`).
-/

namespace DiagramEditor

open Text Source

variable {s s' : Source} {text : Text}

namespace Flowchart

open NodeToken (IsIdent)

variable {α : Type} {word line : Text} {st : Statement} {i : Nat}

/-! ## The line of a directive -/

namespace WordThenBlank

variable (h : WordThenBlank word line) (hword : word ∈ directiveWords)
include h hword

theorem firstWord_of_directive : Text.firstWord (Text.trim line) = word :=
  h.firstWord (isIdent_of_mem_statementKeywords (mem_statementKeywords_of_directive hword))

theorem blockStep_eq : Source.blockStep blockRules line = .stay := by
  obtain ⟨-, -, hend⟩ := ofLine_of_directive h hword
  refine blockStep_eq_stay (Bool.eq_false_iff.2 fun hopen => ?_) hend
  obtain ⟨rest, htrim, hrest⟩ := isSubgraphOpen_iff.1 hopen
  have hspace : ∀ c ∈ rest.head?, isSpace c = true := by
    rcases hrest with rfl | hrest
    · simp
    · rw [hrest]
      rintro _ ⟨⟩
      decide
  -- The line would begin with two words.
  have hfirst := h.firstWord_of_directive hword
  rw [htrim, firstWord_of_front (by decide) (fun _ => eq_false_of_any (by decide)) hspace] at hfirst
  rw [← hfirst] at hword
  exact absurd hword (by decide)

theorem not_declares (kind : Kind) : Kind.ofKeyword? (Text.firstWord (Text.trim line)) ≠ some kind := by
  have hnone : ∀ word ∈ directiveWords, Kind.ofKeyword? word = none := by decide
  rw [h.firstWord_of_directive hword, hnone word hword]
  exact nofun

end WordThenBlank

/-! ## The view with one more directive -/

/-- A list of the view goes on with what the last statement says. -/
theorem IsRead.of_statements_append {list : View → List (Nat × α)} {get : Statement → Option α}
    (h : IsRead list get) (hstart : ∀ s, list (Reader.start s).view = [])
    (hsts : statements s' = statements s ++ [(i, st)]) :
    list (View.ofSource s') =
      list (View.ofSource s) ++ (get st).toList.map fun a => (i, a) := by
  rw [h.ofSource s' (hstart s'), h.ofSource s (hstart s), hsts, found_append]
  cases hst : get st <;> simp [found, hst]

/-- The view has what the directive says as the last one of its kind, and no other link, id or
directive. -/
structure AddsDirective (st : Statement) (s s' : Source) : Prop where
  styles : (View.ofSource s').styles =
    (View.ofSource s).styles ++ st.nodeStyle?.toList.map fun d => (s.length, d)
  classes : (View.ofSource s').classes =
    (View.ofSource s).classes ++ st.classUse?.toList.map fun d => (s.length, d)
  linkStyles : (View.ofSource s').linkStyles =
    (View.ofSource s).linkStyles ++ st.linkStyle?.toList.map fun d => (s.length, d)
  classDefs : (View.ofSource s').classDefs =
    (View.ofSource s).classDefs ++ st.classDef?.toList.map fun d => (s.length, d)
  links : (View.ofSource s').links = (View.ofSource s).links
  ids : (View.ofSource s').ids = (View.ofSource s).ids

namespace AddsDirective

/-- What was added says what the view has. -/
theorem eq_nodeStyle {d : NodeStyle} (h : AddsDirective st s s')
    (h' : AddsDirective (.nodeStyle d) s s') : st = .nodeStyle d := by
  have hstyles := List.append_cancel_left (h.styles.symm.trans h'.styles)
  cases st with
  | nodeStyle d' => simpa [Statement.nodeStyle?] using hstyles
  | _ => cases hstyles

@[inherit_doc eq_nodeStyle]
theorem eq_classUse {d : ClassUse} (h : AddsDirective st s s')
    (h' : AddsDirective (.classUse d) s s') : st = .classUse d := by
  have hclasses := List.append_cancel_left (h.classes.symm.trans h'.classes)
  cases st with
  | classUse d' => simpa [Statement.classUse?] using hclasses
  | _ => cases hclasses

end AddsDirective

/-- A directive at the end adds what it says. -/
theorem addsDirective_pushLine (h : WordThenBlank word text) (hword : word ∈ directiveWords) :
    AddsDirective (.ofLine text) s (s.pushLine text) := by
  have hdecl : (s.pushLine text).declarationOf? .flowchart = s.declarationOf? .flowchart :=
    (declarationOf?_pushLine .flowchart s text).resolve_right fun hdecl =>
      h.not_declares hword .flowchart hdecl.2
  have hsts := statements_pushLine hdecl
  -- Also what is read as no directive of the four kinds mentions nothing.
  obtain ⟨htokens, hlink, hsubgraph, -⟩ := (isDirective_ofLine h hword).eq_nil
  refine ⟨?_, ?_, ?_, ?_, ?_, ?_⟩
  · exact View.isRead_styles.of_statements_append (fun _ => rfl) hsts
  · exact View.isRead_classes.of_statements_append (fun _ => rfl) hsts
  · exact View.isRead_linkStyles.of_statements_append (fun _ => rfl) hsts
  · exact View.isRead_classDefs.of_statements_append (fun _ => rfl) hsts
  · rw [View.links_of_statements_append hsts, hlink]
    exact List.append_nil _
  · have hnodes := View.map_id_nodes_of_statements_append hsts hdecl hsubgraph (by simp [htokens])
    have hsubgraphs := View.subgraphIds_of_statements_append hsts
    rw [hsubgraph, Option.toList_none, List.append_nil] at hsubgraphs
    exact congrArg₂ _ hnodes hsubgraphs

/-- A directive that is read as a style is about an identifier. -/
theorem isIdent_of_addsDirective_nodeStyle {d : NodeStyle} (h : WordThenBlank word text)
    (hword : word ∈ directiveWords) (hadds : AddsDirective (.nodeStyle d) s (s.pushLine text)) :
    IsIdent d.target := by
  have hreads := Statement.readsFrom_ofLine text
  rw [(addsDirective_pushLine h hword).eq_nodeStyle hadds] at hreads
  obtain ⟨_, -, hident, -⟩ := NodeStyle.ofLine?_eq_some_iff.1 hreads
  exact hident

@[inherit_doc isIdent_of_addsDirective_nodeStyle]
theorem isIdent_of_addsDirective_classUse {d : ClassUse} (h : WordThenBlank word text)
    (hword : word ∈ directiveWords) (hadds : AddsDirective (.classUse d) s (s.pushLine text)) :
    ∀ id ∈ d.ids, IsIdent id := by
  have hreads := Statement.readsFrom_ofLine text
  rw [(addsDirective_pushLine h hword).eq_classUse hadds] at hreads
  obtain ⟨_, -, -, hident, -⟩ := ClassUse.ofLine?_eq_some_iff.1 hreads
  exact hident

end Flowchart

/-! ## The edits -/

namespace Edit.Flowchart

open DiagramEditor.Flowchart
open NodeToken (IsIdent)

variable {id key value className : Text} {earlier : Option Handle} {ids : IdAllocator}

/-- The node or subgraph has one property more, in a directive of its own, and without it the source
is the old one. -/
structure AddsStyle (id key value : Text) (s s' : Source) : Prop where
  adds : AddsDirective (.nodeStyle ⟨id, [(key, value)]⟩) s s'
  restored : ∀ earlier ids, ∃ e,
    (applyOps .flowchart [.flowchart (.setNodeStyle id key none)] ⟨s', earlier⟩ ids).1 = .ok e ∧
      e.source = s

/-- The line that the first property of a node or subgraph is written on. -/
def styleLine (id key value : Text) (s : Source) : Text :=
  NodeStyle.render (bodyIndent (View.ofSource s).declarationLine s) ⟨id, [(key, value)]⟩

/-- The line that a class is given to a node or subgraph on. -/
def classLine (id className : Text) (s : Source) : Text :=
  ClassUse.render (bodyIndent (View.ofSource s).declarationLine s) ⟨[id], className⟩

theorem wordThenBlank_styleLine (id key value : Text) (s : Source) :
    WordThenBlank NodeStyle.keyword (styleLine id key value s) :=
  wordThenBlank_nodeStyle (isBlank_bodyIndent _ s) _

theorem wordThenBlank_classLine (id className : Text) (s : Source) :
    WordThenBlank ClassUse.keyword (classLine id className s) :=
  wordThenBlank_classUse (isBlank_bodyIndent _ s) _

section Style

variable (hproperty : Properties.ofText (Properties.toText [(key, value)]) = [(key, value)])
include hproperty

/-- A property that reads back is trimmed. -/
theorem isProperty_of_readsBack : Properties.IsProperty (key, value) :=
  Properties.isProperty_ofText _ _ (by rw [hproperty]; exact List.mem_singleton_self _)

theorem setNodeStyle_eq_pushLine (hid : id ∈ (View.ofSource s).ids) (hvalue : value ≠ [])
    (hstyle : (View.ofSource s).styleFor? id = none) :
    setNodeStyle id key (some value) s = .ok ⟨s.pushLine (styleLine id key value s), none⟩ := by
  have htrim : trim value = value := trim_eq_self (isProperty_of_readsBack hproperty).value_trimmed
  have hset : Properties.set key (some value) [] = [(key, value)] := by
    simp [Properties.set, htrim, Option.filter, hvalue]
  rw [setNodeStyle, requireId_of_mem hid, hstyle]
  simp only [Option.map_none, setProperty, hset]
  rfl

theorem ofLine_styleLine (hident : IsIdent id) (s : Source) :
    Statement.ofLine (styleLine id key value s) = .nodeStyle ⟨id, [(key, value)]⟩ := by
  have htrimmed := Properties.isTrimmed_toText (Properties.isProperty_ofText
    (Properties.toText [(key, value)]))
  rw [hproperty] at htrimmed
  refine ofLine_nodeStyle (NodeStyle.ofLine?_eq_some_iff.2 ⟨_,
    hasWord_written (isBlank_bodyIndent _ s) (.of_isIdent hident), hident, ?_⟩)
  rw [trim_space_cons htrimmed, hproperty]

end Style

/-- The directive with the only property of an id loses it and is deleted. -/
theorem setNodeStyle_none_eq {line : Nat} (hid : id ∈ (View.ofSource s).ids)
    (hstyle : (View.ofSource s).styleFor? id = some (line, ⟨id, [(key, value)]⟩)) :
    setNodeStyle id key none s =
      (deleteLines line 1 s).map fun s => (⟨s, none⟩ : Edited) := by
  have hset : Properties.set key none [(key, value)] = [] := by
    simp [Properties.set, Properties.alterFirst]
  rw [setNodeStyle, requireId_of_mem hid, hstyle]
  simp only [Option.map_some, setProperty, hset]
  rfl

/-- What was written at the end can be deleted again. -/
theorem deleteLines_pushLine (hlength : s.length + 1 < Text.indexBound) (text : Text) :
    deleteLines s.length 1 (s.pushLine text) = .ok s := by
  have hpushed : (s.pushLine text).length = s.length + 1 := by simp
  rw [deleteLines_of_le (by rw [hpushed]) (by rwa [hpushed])]
  simp [pushLine, Source.length]

theorem addsStyle_pushLine (hid : id ∈ (View.ofSource s).ids)
    (hstyle : (View.ofSource s).styleFor? id = none)
    (hread : Statement.ofLine (styleLine id key value s) = .nodeStyle ⟨id, [(key, value)]⟩)
    (hlength : s.length + 1 < Text.indexBound) :
    AddsStyle id key value s (s.pushLine (styleLine id key value s)) := by
  have hword := wordThenBlank_styleLine id key value s
  have hadds := addsDirective_pushLine (s := s) hword (by decide)
  rw [hread] at hadds
  refine ⟨hadds, fun earlier ids => ?_⟩
  -- No directive in front of the new one is about the id.
  have hfound : (View.ofSource (s.pushLine (styleLine id key value s))).styleFor? id =
      some (s.length, ⟨id, [(key, value)]⟩) := by
    rw [View.styleFor?] at hstyle ⊢
    rw [hadds.styles, List.find?_append, hstyle]
    simp [Statement.nodeStyle?]
  have hset : applyOp .flowchart (.flowchart (.setNodeStyle id key none))
      (s.pushLine (styleLine id key value s)) ids = (.ok ⟨s, none⟩, ids) := by
    refine congrArg (·, ids) ((setNodeStyle_none_eq (by rwa [hadds.ids]) hfound).trans ?_)
    rw [deleteLines_pushLine hlength]
    rfl
  have hbalance := checkBalance_pushLine (hword.blockStep_eq (by decide)) s
  exact ⟨_, congrArg Prod.fst (applyOps_cons_of_eq hset hbalance.symm earlier), rfl⟩

theorem applyClass_eq_pushLine (hid : id ∈ (View.ofSource s).ids)
    (hclass : Identifier.checkNode className = .ok ()) :
    applyClass [id] className s = .ok ⟨s.pushLine (classLine id className s), none⟩ := by
  have hids : [id].forM (requireId (View.ofSource s)) = .ok () := by
    rw [List.forM, requireId_of_mem hid]
    rfl
  rw [applyClass, hclass, hids]
  rfl

theorem addsStyle_pushLine_iff (hid : id ∈ (View.ofSource s).ids)
    (hstyle : (View.ofSource s).styleFor? id = none)
    (hproperty : Properties.ofText (Properties.toText [(key, value)]) = [(key, value)])
    (hlength : s.length + 1 < Text.indexBound) :
    AddsStyle id key value s (s.pushLine (styleLine id key value s)) ↔ IsIdent id := by
  constructor
  · -- The new line is read as nothing but a style of an identifier.
    intro h
    exact isIdent_of_addsDirective_nodeStyle (wordThenBlank_styleLine id key value s) (by decide) h.adds
  · exact fun h => addsStyle_pushLine hid hstyle (ofLine_styleLine hproperty h s) hlength

theorem addsClass_pushLine_iff (hclass : Identifier.checkNode className = .ok ()) :
    AddsDirective (.classUse ⟨[id], className⟩) s (s.pushLine (classLine id className s)) ↔
      IsIdent id := by
  have hword := wordThenBlank_classLine id className s
  constructor
  · intro h
    exact isIdent_of_addsDirective_classUse hword (by decide) h id (List.mem_singleton_self id)
  · intro hident
    have hread := ofLine_classUse_render (isBlank_bodyIndent (View.ofSource s).declarationLine s)
      (List.cons_ne_nil id []) (by simpa using hident) (.of_isIdent (isIdent_of_checkNode hclass))
    have hadds := addsDirective_pushLine (s := s) hword (by decide)
    rwa [classLine, hread] at hadds

/-- The first property of a node or subgraph and a class that is given to it are always written. The
view has them as what they are, and the property can be taken back, exactly if the id is an
identifier. -/
theorem applyOps_restyle_iff (hid : id ∈ (View.ofSource s).ids)
    (hproperty : Properties.ofText (Properties.toText [(key, value)]) = [(key, value)])
    (hvalue : value ≠ []) (hclass : Identifier.checkNode className = .ok ())
    (hlength : s.length + 1 < Text.indexBound) :
    ((View.ofSource s).styleFor? id = none → ∃ e,
      (applyOps .flowchart [.flowchart (.setNodeStyle id key (some value))] ⟨s, earlier⟩ ids).1 =
          .ok e ∧
        (AddsStyle id key value s e.source ↔ IsIdent id)) ∧
    ∃ e, (applyOps .flowchart [.flowchart (.applyClass [id] className)] ⟨s, earlier⟩ ids).1 = .ok e ∧
      (AddsDirective (.classUse ⟨[id], className⟩) s e.source ↔ IsIdent id) := by
  constructor
  · intro hstyle
    have hset : applyOp .flowchart (.flowchart (.setNodeStyle id key (some value))) s ids = (_, ids) :=
      congrArg (·, ids) (setNodeStyle_eq_pushLine hproperty hid hvalue hstyle)
    have hbalance := checkBalance_pushLine
      ((wordThenBlank_styleLine id key value s).blockStep_eq (by decide)) s
    exact ⟨_, congrArg Prod.fst (applyOps_cons_of_eq hset hbalance earlier),
      addsStyle_pushLine_iff hid hstyle hproperty hlength⟩
  · have happly : applyOp .flowchart (.flowchart (.applyClass [id] className)) s ids = (_, ids) :=
      congrArg (·, ids) (applyClass_eq_pushLine hid hclass)
    have hbalance := checkBalance_pushLine
      ((wordThenBlank_classLine id className s).blockStep_eq (by decide)) s
    exact ⟨_, congrArg Prod.fst (applyOps_cons_of_eq happly hbalance earlier),
      addsClass_pushLine_iff hclass⟩

/-- A subgraph gets its first property, with commas in its value, and a class. -/
theorem applyOps_restyle_iff_subgraph :
    let s : Source := .ofText "flowchart TD
subgraph S
A
end".toList
    let key := "fill".toList
    let value := "rgb(1,2,3)".toList
    ['S'] ∈ (View.ofSource s).ids ∧
      Properties.ofText (Properties.toText [(key, value)]) = [(key, value)] ∧ value ≠ [] ∧
      Identifier.checkNode ['c'] = .ok () ∧ s.length + 1 < Text.indexBound ∧
      (View.ofSource s).styleFor? ['S'] = none ∧
      (∃ e, (applyOps .flowchart [.flowchart (.setNodeStyle ['S'] key (some value))] ⟨s, none⟩ {}).1 =
          .ok e ∧
        (AddsStyle ['S'] key value s e.source ↔ IsIdent ['S'])) ∧
      ∃ e, (applyOps .flowchart [.flowchart (.applyClass [['S']] ['c'])] ⟨s, none⟩ {}).1 = .ok e ∧
        (AddsDirective (.classUse ⟨[['S']], ['c']⟩) s e.source ↔ IsIdent ['S']) := by
  intro s key value
  have hid : ['S'] ∈ (View.ofSource s).ids := by decide +kernel
  have hproperty : Properties.ofText (Properties.toText [(key, value)]) = [(key, value)] := by
    decide +kernel
  have hvalue : value ≠ [] := by decide
  have hclass : Identifier.checkNode ['c'] = .ok () := by decide +kernel
  have hlength : s.length + 1 < Text.indexBound := by decide +kernel
  have hstyle : (View.ofSource s).styleFor? ['S'] = none := by decide +kernel
  obtain ⟨hset, happly⟩ := applyOps_restyle_iff hid hproperty hvalue hclass hlength
  exact ⟨hid, hproperty, hvalue, hclass, hlength, hstyle, hset hstyle, happly⟩

/-- A quoted title may have a blank: its style is read as one of its first word, and stays when it is
taken back; and no class is given to anything. -/
theorem not_applyOps_restyle :
    let s : Source := .ofText "flowchart TD
subgraph \"My Group\"
A
end".toList
    let styled := s.pushLine "style My Group fill:red".toList
    let classed := s.pushLine "class My Group c".toList
    let id := "My Group".toList
    let key := "fill".toList
    let value := "red".toList
    id ∈ (View.ofSource s).ids ∧ (View.ofSource s).styleFor? id = none ∧
      Properties.ofText (Properties.toText [(key, value)]) = [(key, value)] ∧
      (applyOps .flowchart [.flowchart (.setNodeStyle id key (some value))] ⟨s, none⟩ {}).1 =
        .ok ⟨styled, none⟩ ∧
      (View.ofSource styled).styles = [(4, ⟨"My".toList, [("Group fill".toList, value)]⟩)] ∧
      (applyOps .flowchart [.flowchart (.setNodeStyle id key none)] ⟨styled, none⟩ {}).1 =
        .ok ⟨styled, none⟩ ∧
      (applyOps .flowchart [.flowchart (.applyClass [id] ['c'])] ⟨s, none⟩ {}).1 =
        .ok ⟨classed, none⟩ ∧
      (View.ofSource classed).classes = [] := by
  decide +kernel

end Edit.Flowchart

end DiagramEditor
