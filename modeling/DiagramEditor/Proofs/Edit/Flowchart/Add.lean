import DiagramEditor.Edit.Flowchart.Add
import DiagramEditor.Proofs.Edit.Flowchart.Attachment
import DiagramEditor.Proofs.Flowchart.Written

/-!
# Lines that are added

Where a flowchart is declared, adding a node, a subgraph or a link appends lines to the source and
does nothing else. The lines of nodes and subgraphs are no marks.
-/

namespace DiagramEditor.Edit.Flowchart

open DiagramEditor.Flowchart Source Text
open NodeToken (IsIdent)

variable {s : Source} {front body : List Text} {line : Text} {e : Edited}

/-! ## What is required -/

variable {v : View} {id : Text}

theorem requireNode_eq_ok {n : NodeRecord} (h : requireNode v id = .ok n) : v.node? id = some n := by
  rw [requireNode] at h
  split at h
  · next hn => rw [hn, Except.ok.inj h]
  · cases h

theorem requireSubgraph_eq_ok {g : SubgraphRecord} (h : requireSubgraph v id = .ok g) :
    v.subgraph? id = some g := by
  rw [requireSubgraph] at h
  split at h
  · next hg => rw [hg, Except.ok.inj h]
  · cases h

theorem requireLink_eq_ok {i : Nat} {r : LinkRecord} (h : requireLink v i = .ok r) :
    v.link? i = some r := by
  rw [requireLink] at h
  split at h
  · next hr => rw [hr, Except.ok.inj h]
  · cases h

/-- The id that is asked for is an identifier. -/
theorem isIdent_of_requireNewId (h : requireNewId v id = .ok ()) : IsIdent id := by
  obtain ⟨⟨⟩, hcheck, -⟩ := bind_eq_ok.1 h
  refine isIdent_of_checkNode ?_
  cases hc : Identifier.checkNode id with
  | ok => rfl
  | error e => rw [requireIdentifier, hc] at hcheck; cases hcheck

/-! ## New lines at the end -/

theorem isDeclared_pushLine (h : IsDeclared .flowchart front line body s) (text : Text) :
    IsDeclared .flowchart front line (body ++ [text]) (s.pushLine text) := by
  refine h.with_body ?_
  rw [pushLine, h.lines, List.append_assoc]
  rfl

/-- What is declared needs no declaration. -/
theorem ensureDeclaration_eq (h : IsDeclared .flowchart front line body s) :
    ensureDeclaration .flowchart (View.ofSource s).declarationLine s = .ok (s, front.length) := by
  rw [View.declarationLine_ofSource, h.declarationOf?]
  rfl

/-- The lines of the new body that are not in the old one stand at its end and are no marks. -/
def AddsLines (front : List Text) (line : Text) (body : List Text) (n : Nat) (s' : Source) : Prop :=
  ∃ texts : List Text, texts.length = n ∧
    (∀ text ∈ texts, (Statement.ofLine text).isMark = false) ∧
      IsDeclared .flowchart front line (body ++ texts) s'

theorem writeNode_eq_ok {id : Text} {shape : NodeShape} {label : Text}
    (h : IsDeclared .flowchart front line body s) (hid : IsIdent id)
    (hok : writeNode id shape label s = .ok e) : AddsLines front line body 1 e.source := by
  rw [writeNode, ensureDeclaration_eq h] at hok
  cases hok
  refine ⟨[_], rfl, ?_, isDeclared_pushLine h _⟩
  intro text htext
  rw [List.mem_singleton.1 htext]
  have hmark := isMark_of_classic (t := []) shape label (isBlank_bodyIndent (some front.length) s)
    hid (fun _ hc => nomatch hc) rfl
  rwa [List.append_nil] at hmark

theorem writeSubgraph_eq_ok {id label : Text} (h : IsDeclared .flowchart front line body s)
    (hok : writeSubgraph id label s = .ok e) : AddsLines front line body 2 e.source := by
  rw [writeSubgraph, ensureDeclaration_eq h] at hok
  cases hok
  have hw := isBlank_bodyIndent (some front.length) s
  have hdecl := isDeclared_pushLine (isDeclared_pushLine h
    (SubgraphHeader.render (bodyIndent (some front.length) s) id (some label)))
      (bodyIndent (some front.length) s ++ endWord)
  rw [List.append_assoc] at hdecl
  refine ⟨_, rfl, ?_, hdecl⟩
  intro text htext
  rcases List.mem_pair.1 htext with rfl | rfl
  · exact isMark_header hw id (some label)
  · exact isMark_of_ident hw (isIdent_of_mem_statementKeywords (by decide))

theorem addNode_eq_ok {id : Option Text} {shape : NodeShape} {label : Text} {ids : IdAllocator}
    (h : IsDeclared .flowchart front line body s) (hok : (addNode id shape label s ids).1 = .ok e) :
    AddsLines front line body 1 e.source := by
  cases id with
  | none => exact writeNode_eq_ok h (isIdent_freshNode _ ids) hok
  | some id =>
    obtain ⟨⟨⟩, hnew, hwrite⟩ := bind_eq_ok.1 hok
    exact writeNode_eq_ok h (isIdent_of_requireNewId hnew) hwrite

theorem addSubgraph_eq_ok {id : Option Text} {label : Text} {ids : IdAllocator}
    (h : IsDeclared .flowchart front line body s) (hok : (addSubgraph id label s ids).1 = .ok e) :
    AddsLines front line body 2 e.source := by
  cases id with
  | none => exact writeSubgraph_eq_ok h hok
  | some id =>
    obtain ⟨⟨⟩, -, hwrite⟩ := bind_eq_ok.1 hok
    exact writeSubgraph_eq_ok h hwrite

/-- The line of a new link. -/
def edgeLine (source target : Text) (text : Option Text) (s : Source) : Text :=
  LinkLine.render (bodyIndent (View.ofSource s).declarationLine s) source
    ⟨.normal, text.bind nonBlank?⟩ target

theorem addEdge_eq_ok {source target : Text} {text : Option Text}
    (h : IsDeclared .flowchart front line body s) (hok : addEdge source target text s = .ok e) :
    IsDeclared .flowchart front line (body ++ [edgeLine source target text s]) e.source := by
  obtain ⟨⟨⟩, -, hok⟩ := bind_eq_ok.1 hok
  obtain ⟨⟨⟩, -, hok⟩ := bind_eq_ok.1 hok
  cases hok
  exact isDeclared_pushLine h _

end DiagramEditor.Edit.Flowchart
