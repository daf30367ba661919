import DiagramEditor.Proofs.Edit.Batch
import DiagramEditor.Proofs.Edit.Flowchart.Add
import DiagramEditor.Proofs.Flowchart.Relabel
import DiagramEditor.Proofs.Source.Reload

/-!
# Links that are added

A new link is one line at the end of the source, written from two ids that the view knows. The view
knows more ids than a link can be written with: the title of a subgraph may be any text, and a word
that begins other lines may be the target of a link, but not its source. So the written line is read
as the new link exactly if both ids are identifiers and the first one is no such word
(`applyOps_addEdge_iff`). What a line at the end may do to the view is said for any line
(`map_id_nodes_pushLine`).
-/

namespace DiagramEditor

open Text Source

namespace Flowchart

open NodeToken (IsIdent)

variable {v : View} {r : Reader} {st : Statement} {s : Source} {text w source target id : Text}

/-- What the line at the end says comes last. -/
theorem statements_pushLine
    (h : (s.pushLine text).declarationOf? .flowchart = s.declarationOf? .flowchart) :
    statements (s.pushLine text) = statements s ++ [(s.length, .ofLine text)] := by
  rw [statements, statements, body_pushLine h, List.map_append]
  rfl

/-- There is nothing behind a declaration at the end. -/
theorem statements_pushLine_eq_nil
    (h : (s.pushLine text).declarationOf? .flowchart = some s.length) :
    statements (s.pushLine text) = [] := by
  rw [statements, body_eq_numbered, bodyIndex, h, Option.elim_some, pushLine,
    List.drop_eq_nil_of_le (by simp [Source.length])]
  rfl

/-! ## The view with one more statement -/

theorem View.links_of_statements_append {s' : Source} {i : Nat}
    (h : statements s' = statements s ++ [(i, st)]) : (View.ofSource s').links =
      (View.ofSource s).links ++
        numberLinks (View.ofSource s).links.length (st.link?.toList.map fun l => (i, l)) := by
  have hfound : found Statement.link? [(i, st)] = st.link?.toList.map fun l => (i, l) := by
    cases hst : st.link? <;> simp [found, hst]
  rw [links_ofSource, links_ofSource, h, found_append, numberLinks_append, hfound,
    length_numberLinks, Nat.zero_add]

theorem View.subgraphIds_of_statements_append {s' : Source} {i : Nat}
    (h : statements s' = statements s ++ [(i, st)]) :
    (View.ofSource s').subgraphIds = (View.ofSource s).subgraphIds ++ st.subgraph?.toList := by
  rw [subgraphIds_ofSource, subgraphIds_ofSource, h]
  cases hst : st.subgraph? <;> simp [hst]

theorem View.nodes_step (r : Reader) (line : Nat) (st : Statement) :
    (r.step line st).view.nodes = (r.view.addMentions r.openBlocks.head? (st.mentions line)).nodes := by
  cases st with
  | blockEnd =>
    rw [Reader.step]
    split <;> rfl
  | _ => rfl

theorem View.map_id_addMention (m : Mention) (t : NodeToken) (container : Option Nat) (v : View) :
    (v.addMention m t container).nodes.map (·.id) =
      if t.id ∈ v.nodes.map (·.id) then v.nodes.map (·.id) else v.nodes.map (·.id) ++ [t.id] := by
  obtain ⟨c, hc⟩ : ∃ c, (v.addMention m t container).nodes =
      alterNode t.id (·.addMention m t c) v.nodes := ⟨_, rfl⟩
  rw [hc, map_id_alterNode (f := (·.addMention m t c)) fun _ => rfl]

/-- A mention of a known id brings no node into the view. -/
theorem View.filter_id_addMention {hidden : List Text} (m : Mention) {t : NodeToken}
    (container : Option Nat) (hid : t.id ∈ v.nodes.map (·.id) ∨ t.id ∈ hidden) :
    ((v.addMention m t container).nodes.map (·.id)).filter (!hidden.contains ·) =
      (v.nodes.map (·.id)).filter (!hidden.contains ·) := by
  rw [map_id_addMention]
  split
  · rfl
  · next hnot => simp [hid.resolve_left hnot]

theorem View.filter_id_addMentions {hidden : List Text} (container : Option Nat)
    {ms : List (Mention × NodeToken)}
    (hids : ∀ p ∈ ms, p.2.id ∈ v.nodes.map (·.id) ∨ p.2.id ∈ hidden) :
    ((v.addMentions container ms).nodes.map (·.id)).filter (!hidden.contains ·) =
      (v.nodes.map (·.id)).filter (!hidden.contains ·) := by
  induction ms generalizing v with
  | nil => rfl
  | cons p ms ih =>
    obtain ⟨hp, hms⟩ := List.forall_mem_cons.1 hids
    refine (ih fun q hq => (hms q hq).imp_left fun hmem => ?_).trans
      (filter_id_addMention p.1 container hp)
    rw [map_id_addMention]
    split
    exacts [hmem, List.mem_append_left _ hmem]

theorem View.map_id_nodes (s : Source) : (View.ofSource s).nodes.map (·.id) =
    (((Reader.start s).readAll (statements s)).view.nodes.map (·.id)).filter
      (!(View.ofSource s).subgraphIds.contains ·) := by
  rw [nodes_ofSource, List.filter_map]
  rfl

/-- A statement that mentions known ids only, and opens no subgraph, leaves the ids of the nodes as
they are. -/
theorem View.map_id_nodes_of_statements_append {s' : Source} {i : Nat}
    (h : statements s' = statements s ++ [(i, st)])
    (hdecl : s'.declarationOf? .flowchart = s.declarationOf? .flowchart)
    (hsubgraph : st.subgraph? = none)
    (hids : ∀ t ∈ st.tokens, t.id ∈ (View.ofSource s).ids) :
    (View.ofSource s').nodes.map (·.id) = (View.ofSource s).nodes.map (·.id) := by
  have hsubgraphs : (View.ofSource s').subgraphIds = (View.ofSource s).subgraphIds := by
    rw [subgraphIds_of_statements_append h, hsubgraph, Option.toList_none, List.append_nil]
  have hread : (Reader.start s').readAll (statements s') =
      ((Reader.start s).readAll (statements s)).step i st := by
    rw [Reader.start, hdecl, h, Reader.readAll, List.foldl_append]
    rfl
  rw [map_id_nodes, map_id_nodes, hsubgraphs, hread, nodes_step]
  refine filter_id_addMentions _ fun p hp => ?_
  have htoken : p.2 ∈ st.tokens := by
    rw [show st.tokens = (st.mentions i).map Prod.snd by cases st <;> rfl]
    exact List.mem_map_of_mem hp
  rcases List.mem_append.1 (hids p.2 htoken) with hmem | hmem
  · rw [map_id_nodes] at hmem
    exact .inl (List.mem_filter.1 hmem).1
  · exact .inr hmem

/-! ## The line of a link -/

/-- An id in front of a character that is neither part of it nor opens a definition is a token. -/
theorem NodeToken.scan?_ident_append (hid : IsIdent id) {rest : Text}
    (hhead : ∀ c ∈ rest.head?, Identifier.isIdentChar c = false ∧ c ∉ openers)
    (hclass : scanClass rest = (none, rest)) :
    scan? (id ++ rest) = some (⟨id, none, none, id⟩, rest) := by
  have hscan := scan?_append hid (fun c hc => (hhead c hc).1)
    (scanDefinition?_of_noOpener fun c hc => (hhead c hc).2) hclass
  rwa [before_self_append] at hscan

/-- The link that is written between two ids. -/
def LinkLine.plain (w source target : Text) : LinkLine :=
  ⟨w, ⟨source, none, none, source⟩, ' ' :: Arrow.normal.token ++ [' '], ⟨.normal, none⟩,
    ⟨target, none, none, target⟩, []⟩

theorem LinkLine.ofLine?_render_plain (hw : IsBlank w) (hsource : IsIdent source)
    (hkeyword : source ∉ statementKeywords) (htarget : IsIdent target) :
    LinkLine.ofLine? (render w source ⟨.normal, none⟩ target) = some (plain w source target) := by
  refine LinkLine.ofLine?_eq_some_iff.2 ⟨?_, by simp [render, toLine, plain, Connector.render]⟩
  have hspace : Identifier.isIdentChar ' ' = false ∧ ' ' ∉ NodeToken.openers := by decide
  refine ⟨hw, ?_, by simp [plain, NodeToken.isKeyword, hkeyword], ?_, ?_, rfl⟩
  · refine NodeToken.scan?_ident_append hsource (fun c hc => ?_) rfl
    rw [← Option.some.inj hc]
    exact hspace
  · have hscan : Connector.scan? Arrow.normal.token = some (⟨.normal, none⟩, []) := rfl
    obtain ⟨text, htext, hwritten⟩ := Connector.exists_isWritten hscan
    rw [List.append_nil] at htext
    exact ⟨[' '], text, [' '], htext ▸ rfl, isBlank_singleton_space, isBlank_singleton_space, hwritten⟩
  · rw [plain, List.append_nil]
    exact NodeToken.scan?_ident htarget

/-- A link between two ids is read from its line exactly if the ids are identifiers and the first one
does not begin other lines. -/
theorem LinkLine.ofLine?_render_plain_iff (hw : IsBlank w) :
    (∃ l, LinkLine.ofLine? (render w source ⟨.normal, none⟩ target) = some l ∧
        l.source.id = source ∧ l.target.id = target) ↔
      IsIdent source ∧ source ∉ statementKeywords ∧ IsIdent target := by
  constructor
  · rintro ⟨l, hread, rfl, rfl⟩
    obtain ⟨hpieces, -⟩ := LinkLine.ofLine?_eq_some_iff.1 hread
    have hsource := NodeToken.isIdent_of_scan? hpieces.source
    refine ⟨hsource, fun hkeyword => ?_, NodeToken.isIdent_of_scan? hpieces.target⟩
    have hword : WordThenBlank l.source.id (render w l.source.id ⟨.normal, none⟩ l.target.id) := by
      rw [render, List.append_assoc, List.append_assoc]
      exact wordThenBlank_append hsource hw (by decide) _
    rw [linkLine_eq_none hword hkeyword] at hread
    cases hread
  · rintro ⟨hsource, hkeyword, htarget⟩
    exact ⟨_, ofLine?_render_plain hw hsource hkeyword htarget, rfl, rfl⟩

end Flowchart

/-! ## The edit -/

namespace Edit.Flowchart

open DiagramEditor.Flowchart
open NodeToken (IsIdent)

variable {source target : Text} {earlier : Option Handle} {ids : IdAllocator}

/-- The flowchart has one link more, behind all others, and the ids that it had. -/
structure AddsEdge (source target : Text) (s : Source) (e : Edited) : Prop where
  links : ∃ r, (View.ofSource e.source).links = (View.ofSource s).links ++ [r] ∧
    r.index = (View.ofSource s).links.length ∧ r.link.source.id = source ∧
    r.link.target.id = target ∧ r.link.connector = ⟨.normal, none⟩ ∧
    e.handle = some (.edge source target (some r.index))
  nodes : (View.ofSource e.source).nodes.map (·.id) = (View.ofSource s).nodes.map (·.id)
  subgraphs : (View.ofSource e.source).subgraphs.map (·.id) = (View.ofSource s).subgraphs.map (·.id)

theorem requireId_of_mem {v : View} {id : Text} (hid : id ∈ v.ids) : requireId v id = .ok () := by
  rw [requireId, View.hasId, if_pos (List.contains_iff_mem.2 hid)]

/-- Between known ids a line is added in any case. -/
theorem addEdge_eq (hsource : source ∈ (View.ofSource s).ids) (htarget : target ∈ (View.ofSource s).ids)
    (text : Option Text) : addEdge source target text s =
      .ok ⟨s.pushLine (edgeLine source target text s),
        some (.edge source target (some (View.ofSource s).links.length))⟩ := by
  rw [addEdge, requireId_of_mem hsource, requireId_of_mem htarget]
  rfl

/-- A line at the end is a new link of the view only if it is read as one. -/
theorem ofLine?_of_links_pushLine {text : Text} {r : LinkRecord}
    (h : (View.ofSource (s.pushLine text)).links = (View.ofSource s).links ++ [r]) :
    LinkLine.ofLine? text = some r.link := by
  rcases declarationOf?_pushLine .flowchart s text with hdecl | ⟨hdecl, -⟩
  · rw [View.links_of_statements_append (statements_pushLine hdecl)] at h
    have hlast := List.append_cancel_left h
    have hreads := Statement.readsFrom_ofLine text
    cases hst : Statement.ofLine text with
    | link l =>
      rw [hst] at hlast hreads
      obtain rfl := (List.cons.inj hlast).1
      exact hreads
    | _ =>
      rw [hst] at hlast
      cases hlast
  · have hnone : (View.ofSource (s.pushLine text)).links = [] := by
      rw [View.links_ofSource, statements_pushLine_eq_nil hdecl]
      rfl
    rw [hnone] at h
    exact absurd h.symm (by simp)

theorem addsEdge_pushLine {text : Text} {l : LinkLine} (hread : LinkLine.ofLine? text = some l)
    (hsource : l.source.id ∈ (View.ofSource s).ids) (htarget : l.target.id ∈ (View.ofSource s).ids)
    (hconnector : l.connector = ⟨.normal, none⟩) :
    AddsEdge l.source.id l.target.id s ⟨s.pushLine text,
      some (.edge l.source.id l.target.id (some (View.ofSource s).links.length))⟩ := by
  have hdecl : (s.pushLine text).declarationOf? .flowchart = s.declarationOf? .flowchart :=
    (declarationOf?_pushLine .flowchart s text).resolve_right fun hdecl =>
      (beginsWithNode_of_link hread).not_declares hdecl.2
  have hsts := statements_pushLine hdecl
  rw [Statement.ofLine_of_link hread] at hsts
  refine ⟨⟨_, View.links_of_statements_append hsts, rfl, rfl, rfl, hconnector, rfl⟩, ?_, ?_⟩
  · refine View.map_id_nodes_of_statements_append hsts hdecl rfl fun t ht => ?_
    rcases List.mem_pair.1 ht with rfl | rfl
    exacts [hsource, htarget]
  · exact (View.subgraphIds_of_statements_append hsts).trans (List.append_nil _)

/-- A new link between two ids of the flowchart is what the view has more afterwards exactly if both are
identifiers and the first one is no word that begins other lines. -/
theorem applyOps_addEdge_iff (hsource : source ∈ (View.ofSource s).ids)
    (htarget : target ∈ (View.ofSource s).ids) :
    (∃ e, (applyOps .flowchart [.flowchart (.addEdge source target none)] ⟨s, earlier⟩ ids).1 = .ok e ∧
        AddsEdge source target s e) ↔
      IsIdent source ∧ source ∉ statementKeywords ∧ IsIdent target := by
  have hadd : applyOp .flowchart (.flowchart (.addEdge source target none)) s ids = (_, ids) :=
    congrArg (·, ids) (addEdge_eq hsource htarget none)
  have hw : IsBlank (bodyIndent (View.ofSource s).declarationLine s) := isBlank_bodyIndent _ s
  constructor
  · rintro ⟨e, hok, hadds⟩
    obtain ⟨next, hop, rfl, -⟩ := applyOps_singleton_eq_ok hok
    rw [hadd] at hop
    obtain rfl := Except.ok.inj (congrArg Prod.fst hop)
    obtain ⟨r, hlinks, -, hfrom, hto, -⟩ := hadds.links
    exact (LinkLine.ofLine?_render_plain_iff hw).1 ⟨_, ofLine?_of_links_pushLine hlinks, hfrom, hto⟩
  · rintro ⟨hfrom, hkeyword, hto⟩
    have hread := LinkLine.ofLine?_render_plain hw hfrom hkeyword hto
    have hbalance := checkBalance_pushLine (beginsWithNode_of_link hread).blockStep_eq s
    exact ⟨_, congrArg Prod.fst (applyOps_singleton_of_eq hadd hbalance earlier),
      addsEdge_pushLine hread hsource htarget rfl⟩

/-- The source of the new link is a subgraph, and its target a word that begins other lines. -/
theorem applyOps_addEdge_iff_subgraph :
    let s : Source := .ofText "graph
subgraph S
A --> end
end".toList
    let word := "end".toList
    ['S'] ∈ (View.ofSource s).ids ∧ word ∈ (View.ofSource s).ids ∧
      ((∃ e, (applyOps .flowchart [.flowchart (.addEdge ['S'] word none)] ⟨s, none⟩ {}).1 = .ok e ∧
          AddsEdge ['S'] word s e) ↔
        IsIdent ['S'] ∧ ['S'] ∉ statementKeywords ∧ IsIdent word) := by
  intro s word
  have hsource : ['S'] ∈ (View.ofSource s).ids := by decide +kernel
  have htarget : word ∈ (View.ofSource s).ids := by decide +kernel
  exact ⟨hsource, htarget, applyOps_addEdge_iff hsource htarget⟩

/-- A node may be called `graph`, but no link can be written that starts there. -/
theorem not_applyOps_addEdge :
    let s : Source := .ofText "flowchart TD
A --> graph".toList
    let s' : Source := .ofText "flowchart TD
A --> graph
graph --> A".toList
    (applyOps .flowchart [.flowchart (.addEdge "graph".toList ['A'] none)] ⟨s, none⟩ {}).1 =
        .ok ⟨s', some (.edge "graph".toList ['A'] (some 1))⟩ ∧
      (View.ofSource s).ids = [['A'], "graph".toList] ∧
      (View.ofSource s').links = (View.ofSource s).links ∧
      (applyOps .flowchart [.flowchart (.deleteEdge 1)] ⟨s', none⟩ {}).1 =
        .error (.linkNotFound 1) := by
  decide +kernel

end Edit.Flowchart

end DiagramEditor
