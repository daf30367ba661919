import DiagramEditor.Proofs.Flowchart.Statement
import DiagramEditor.Proofs.Lists
import DiagramEditor.Proofs.Source.Declaration
import Mathlib.Data.List.Basic

/-!
# What a view holds

The view of a source is read off the statements of its body (`statements`), and each part of it
depends on the statements of one kind only. The links are the link statements, numbered in order
(`View.links_ofSource`), the directives are those on the lines (`View.linkStyles_ofSource` and its
siblings), and the record of a node holds its mentions in order, with the richest of their
definitions (`View.isGathered_ofSource`). All of it stands on lines of the body
(`View.isWithin_ofSource`).
-/

namespace DiagramEditor.Flowchart

open Text Source

variable {α : Type} {s : Source} {r : Reader} {sts : List (Nat × Statement)} {line i k : Nat}
  {st : Statement} {id : Text}

/-- What the lines of the body say, with their numbers. -/
def statements (s : Source) : List (Nat × Statement) :=
  (s.body .flowchart).map fun p => (p.1, Statement.ofLine p.2)

namespace Reader

/-- The statements read one after the other. -/
def readAll (r : Reader) (sts : List (Nat × Statement)) : Reader :=
  sts.foldl (fun r p => r.step p.1 p.2) r

/-- The reader of a source before its first line. -/
def start (s : Source) : Reader :=
  { view := { declarationLine := s.declarationOf? .flowchart } }

@[simp] theorem readAll_nil (r : Reader) : r.readAll [] = r := rfl

theorem readAll_cons (r : Reader) (p : Nat × Statement) (sts : List (Nat × Statement)) :
    r.readAll (p :: sts) = (r.step p.1 p.2).readAll sts := rfl

theorem readAll_append (r : Reader) (sts more : List (Nat × Statement)) :
    r.readAll (sts ++ more) = (r.readAll sts).readAll more :=
  List.foldl_append

end Reader

/-- The mentions of nodes on the line from left to right. -/
def Statement.mentions (line : Nat) : Statement → List (Mention × NodeToken)
  | .link l =>
    [(⟨line, l.sourceStart, l.source.text.length, false, l.source.definition.isSome⟩, l.source),
      (⟨line, l.targetStart, l.target.text.length, false, l.target.definition.isSome⟩, l.target)]
  | .node n => [(⟨line, n.lead.length, n.token.text.length, true, n.token.definition.isSome⟩, n.token)]
  | _ => []

theorem Statement.map_snd_mentions (line : Nat) (st : Statement) :
    (st.mentions line).map Prod.snd = st.tokens := by
  cases st <;> rfl

/-- The definitions of one node in the statement. -/
def Statement.definitionsOf (id : Text) (st : Statement) : List NodeDefinition :=
  (st.tokens.filter fun t => t.id = id).filterMap (·.definition)

/-- The view with the mentions of one line. -/
def View.addMentions (container : Option Nat) (ms : List (Mention × NodeToken)) (v : View) : View :=
  ms.foldl (fun v p => v.addMention p.1 p.2 container) v

theorem View.ofSource_eq (s : Source) :
    View.ofSource s = ((Reader.start s).readAll (statements s)).finish s.length := by
  rw [View.ofSource, statements, Reader.readAll, List.foldl_map]
  rfl

theorem mem_statements {p : Nat × Statement} : p ∈ statements s ↔
    ∃ text, (p.1, text) ∈ s.body .flowchart ∧ p.2 = Statement.ofLine text := by
  constructor
  · intro h
    obtain ⟨⟨i, text⟩, hmem, rfl⟩ := List.mem_map.1 h
    exact ⟨text, hmem, rfl⟩
  · rintro ⟨text, hmem, heq⟩
    exact List.mem_map.2 ⟨_, hmem, Prod.ext rfl heq.symm⟩

/-- A line says one thing. -/
theorem eq_of_mem_statements {st' : Statement} (h : (line, st) ∈ statements s)
    (h' : (line, st') ∈ statements s) : st = st' := by
  obtain ⟨⟨_, t⟩, hmem, heq⟩ := List.mem_map.1 h
  obtain ⟨⟨_, t'⟩, hmem', heq'⟩ := List.mem_map.1 h'
  obtain ⟨rfl, rfl⟩ := Prod.mk.inj heq
  obtain ⟨rfl, rfl⟩ := Prod.mk.inj heq'
  rw [Source.body, numberedFrom_eq] at hmem hmem'
  rw [eq_of_mem_numbered hmem hmem']

/-- What a line of the body says is read from this line of the source. -/
theorem exists_line_of_mem_statements (h : (line, st) ∈ statements s) :
    ∃ text, s.lines[line]? = some text ∧ Statement.ofLine text = st := by
  obtain ⟨⟨_, t⟩, hmem, heq⟩ := List.mem_map.1 h
  obtain ⟨rfl, rfl⟩ := Prod.mk.inj heq
  rw [Source.body, numberedFrom_eq] at hmem
  obtain ⟨hle, hget⟩ := mem_numbered.1 hmem
  rw [List.getElem?_drop, Nat.add_sub_cancel' hle] at hget
  exact ⟨t, hget, rfl⟩

theorem nodup_map_fst_statements (s : Source) : ((statements s).map Prod.fst).Nodup := by
  rw [statements, List.map_map, Source.body, numberedFrom_eq]
  exact nodup_map_fst_numbered _ _

/-- Below a declaration, the statements are those of the body. -/
theorem map_snd_statements {front body : List Text} {text : Text}
    (h : IsDeclared .flowchart front text body s) :
    (statements s).map Prod.snd = body.map Statement.ofLine := by
  rw [statements, h.body_eq, List.map_map]
  conv_rhs => rw [← map_snd_numbered (front.length + 1) body, List.map_map]
  rfl

/-! ## Lists of a view -/

section Lists

/-- A list of the view that grows by what `get` finds in a statement, and by nothing else. -/
structure IsRead (list : View → List (Nat × α)) (get : Statement → Option α) : Prop where
  step : ∀ (r : Reader) line st, list (r.step line st).view =
    list r.view ++ (get st).toList.map fun a => (line, a)
  closeAt : ∀ i line v, list (Reader.closeAt i line v) = list v
  drop : ∀ v : View, list v.dropSubgraphIds = list v

variable {list : View → List (Nat × α)} {get : Statement → Option α}

/-- What `get` finds in the statements, with the line numbers. -/
def found (get : Statement → Option α) (sts : List (Nat × Statement)) : List (Nat × α) :=
  sts.filterMap fun p => (get p.2).map fun a => (p.1, a)

theorem mem_found {a : α} : (line, a) ∈ found get sts ↔ ∃ st, (line, st) ∈ sts ∧ get st = some a := by
  simp only [found, List.mem_filterMap, Option.map_eq_some_iff, Prod.mk.injEq, Prod.exists]
  constructor
  · rintro ⟨_, st, hmem, _, ha, rfl, rfl⟩
    exact ⟨st, hmem, ha⟩
  · rintro ⟨st, hmem, ha⟩
    exact ⟨line, st, hmem, a, ha, rfl, rfl⟩

theorem map_snd_found (get : Statement → Option α) (sts : List (Nat × Statement)) :
    (found get sts).map Prod.snd = (sts.map Prod.snd).filterMap get := by
  rw [found, List.map_filterMap, List.filterMap_map]
  congr 1
  funext p
  simp [Function.comp_def]

theorem found_filter (p : Nat → Bool) (get : Statement → Option α) (sts : List (Nat × Statement)) :
    found get (sts.filter fun q => p q.1) = (found get sts).filter fun q => p q.1 := by
  rw [found, found, List.filter_filterMap, List.filterMap_filter]
  refine List.filterMap_congr fun q _ => ?_
  cases get q.2 <;> cases h : p q.1 <;> simp [Option.filter, h]

theorem map_fst_found_sublist (get : Statement → Option α) (sts : List (Nat × Statement)) :
    ((found get sts).map Prod.fst).Sublist (sts.map Prod.fst) := by
  induction sts with
  | nil => exact .slnil
  | cons q sts ih =>
    cases hq : get q.2 with
    | none => simpa [found, hq] using ih.cons q.1
    | some a => simpa [found, hq] using ih.cons_cons q.1

theorem IsRead.readAll (h : IsRead list get) (r : Reader) (sts : List (Nat × Statement)) :
    list (r.readAll sts).view = list r.view ++ found get sts := by
  induction sts generalizing r with
  | nil => simp [found]
  | cons p sts ih =>
    rw [Reader.readAll_cons, ih, h.step, List.append_assoc]
    cases hp : get p.2 <;> simp [found, hp]

theorem IsRead.foldl_closeAt (h : IsRead list get) (is : List Nat) (line : Nat) (v : View) :
    list (is.foldl (fun v i => Reader.closeAt i line v) v) = list v := by
  induction is generalizing v with
  | nil => rfl
  | cons i is ih => rw [List.foldl_cons, ih, h.closeAt]

theorem IsRead.ofSource (h : IsRead list get) (s : Source) (hstart : list (Reader.start s).view = []) :
    list (View.ofSource s) = found get (statements s) := by
  rw [View.ofSource_eq, Reader.finish, h.drop, h.foldl_closeAt, h.readAll, hstart, List.nil_append]

end Lists

/-- The style directive, the class directive and the class definition of a statement. -/
def Statement.nodeStyle? : Statement → Option NodeStyle
  | nodeStyle d => some d
  | _ => none

@[inherit_doc Statement.nodeStyle?]
def Statement.classUse? : Statement → Option ClassUse
  | classUse d => some d
  | _ => none

@[inherit_doc Statement.nodeStyle?]
def Statement.classDef? : Statement → Option ClassDef
  | classDef d => some d
  | _ => none

namespace View

theorem isRead_linkStyles : IsRead View.linkStyles Statement.linkStyle? where
  step r line st := by
    cases st with
    | blockEnd => rw [Reader.step]; split <;> simp [Reader.closeAt, Statement.linkStyle?]
    | _ => simp [Reader.step, Statement.linkStyle?, View.addMention]
  closeAt _ _ _ := rfl
  drop _ := rfl

theorem isRead_classes : IsRead View.classes Statement.classUse? where
  step r line st := by
    cases st with
    | blockEnd => rw [Reader.step]; split <;> simp [Reader.closeAt, Statement.classUse?]
    | _ => simp [Reader.step, Statement.classUse?, View.addMention]
  closeAt _ _ _ := rfl
  drop _ := rfl

theorem isRead_styles : IsRead View.styles Statement.nodeStyle? where
  step r line st := by
    cases st with
    | blockEnd => rw [Reader.step]; split <;> simp [Reader.closeAt, Statement.nodeStyle?]
    | _ => simp [Reader.step, Statement.nodeStyle?, View.addMention]
  closeAt _ _ _ := rfl
  drop _ := rfl

theorem isRead_classDefs : IsRead View.classDefs Statement.classDef? where
  step r line st := by
    cases st with
    | blockEnd => rw [Reader.step]; split <;> simp [Reader.closeAt, Statement.classDef?]
    | _ => simp [Reader.step, Statement.classDef?, View.addMention]
  closeAt _ _ _ := rfl
  drop _ := rfl

theorem linkStyles_ofSource (s : Source) :
    (View.ofSource s).linkStyles = found Statement.linkStyle? (statements s) :=
  isRead_linkStyles.ofSource s rfl

theorem classes_ofSource (s : Source) :
    (View.ofSource s).classes = found Statement.classUse? (statements s) :=
  isRead_classes.ofSource s rfl

theorem styles_ofSource (s : Source) :
    (View.ofSource s).styles = found Statement.nodeStyle? (statements s) :=
  isRead_styles.ofSource s rfl

theorem classDefs_ofSource (s : Source) :
    (View.ofSource s).classDefs = found Statement.classDef? (statements s) :=
  isRead_classDefs.ofSource s rfl

theorem declarationLine_ofSource (s : Source) :
    (View.ofSource s).declarationLine = s.declarationOf? .flowchart := by
  have hstep : ∀ (r : Reader) line st,
      (r.step line st).view.declarationLine = r.view.declarationLine := by
    intro r line st
    cases st with
    | blockEnd => rw [Reader.step]; split <;> rfl
    | _ => rfl
  have hread : ∀ (sts : List (Nat × Statement)) (r : Reader),
      (r.readAll sts).view.declarationLine = r.view.declarationLine := by
    intro sts
    induction sts with
    | nil => exact fun _ => rfl
    | cons p sts ih => exact fun r => (ih _).trans (hstep r p.1 p.2)
  have hclose : ∀ (is : List Nat) (line : Nat) (v : View),
      (is.foldl (fun v i => Reader.closeAt i line v) v).declarationLine = v.declarationLine := by
    intro is line
    induction is with
    | nil => exact fun _ => rfl
    | cons i is ih => exact fun v => ih _
  rw [View.ofSource_eq, Reader.finish, dropSubgraphIds, hclose, hread]
  rfl

/-! ## Links -/

/-- The links as records, numbered from `start` on. -/
def numberLinks (start : Nat) (links : List (Nat × LinkLine)) : List LinkRecord :=
  (links.zipIdx start).map fun p => ⟨p.2, p.1.1, p.1.2⟩

theorem numberLinks_append (start : Nat) (links more : List (Nat × LinkLine)) :
    numberLinks start (links ++ more) =
      numberLinks start links ++ numberLinks (start + links.length) more := by
  rw [numberLinks, List.zipIdx_append, List.map_append]
  rfl

theorem step_links (r : Reader) (line : Nat) (st : Statement) :
    (r.step line st).view.links = r.view.links ++
      numberLinks r.view.links.length (st.link?.toList.map fun l => (line, l)) := by
  cases st with
  | blockEnd =>
    rw [Reader.step]
    split <;> simp [Reader.closeAt, Statement.link?, numberLinks]
  | _ => simp [Reader.step, Statement.link?, View.addMention, numberLinks]

theorem length_numberLinks (start : Nat) (links : List (Nat × LinkLine)) :
    (numberLinks start links).length = links.length := by
  simp [numberLinks]

theorem readAll_links (r : Reader) (sts : List (Nat × Statement)) :
    (r.readAll sts).view.links = r.view.links ++
      numberLinks r.view.links.length (found Statement.link? sts) := by
  induction sts generalizing r with
  | nil => simp [found, numberLinks]
  | cons p sts ih =>
    rw [Reader.readAll_cons, ih, step_links, List.append_assoc, List.length_append,
      length_numberLinks, ← numberLinks_append]
    cases hp : p.2.link? <;> simp [found, hp]

theorem foldl_closeAt_links (is : List Nat) (line : Nat) (v : View) :
    (is.foldl (fun v i => Reader.closeAt i line v) v).links = v.links := by
  induction is generalizing v with
  | nil => rfl
  | cons i is ih => rw [List.foldl_cons, ih]; rfl

theorem finish_links (length : Nat) (r : Reader) : (r.finish length).links = r.view.links :=
  foldl_closeAt_links r.openBlocks (length - 1) r.view

/-- The links of a source are its link statements in order. -/
theorem links_ofSource (s : Source) :
    (View.ofSource s).links = numberLinks 0 (found Statement.link? (statements s)) := by
  rw [View.ofSource_eq, finish_links, readAll_links]
  rfl

theorem map_link_numberLinks (start : Nat) (links : List (Nat × LinkLine)) :
    (numberLinks start links).map (·.link) = links.map Prod.snd := by
  rw [numberLinks, List.map_map]
  conv_rhs => rw [← List.zipIdx_map_fst start links, List.map_map]
  rfl

theorem map_link_links (s : Source) : (View.ofSource s).links.map (·.link) =
    ((statements s).map Prod.snd).filterMap Statement.link? := by
  rw [links_ofSource, map_link_numberLinks, map_snd_found]

/-- The links on some of the lines. -/
theorem map_link_filter_links (p : Nat → Bool) (s : Source) :
    ((View.ofSource s).links.filter fun r => p r.line).map (·.link) =
      (((statements s).filter fun q => p q.1).map Prod.snd).filterMap Statement.link? := by
  have hnumber : ∀ (links : List (Nat × LinkLine)) (start : Nat),
      ((numberLinks start links).filter fun r => p r.line).map (·.link) =
        (links.filter fun q => p q.1).map Prod.snd := by
    intro links start
    rw [numberLinks, List.filter_map, List.map_map]
    conv_rhs => rw [← List.zipIdx_map_fst start links, List.filter_map, List.map_map]
    rfl
  rw [links_ofSource, hnumber, ← found_filter, map_snd_found]

theorem map_line_links (s : Source) : (View.ofSource s).links.map (·.line) =
    (found Statement.link? (statements s)).map Prod.fst := by
  rw [links_ofSource, numberLinks, List.map_map]
  conv_rhs => rw [← List.zipIdx_map_fst 0 (found Statement.link? (statements s)), List.map_map]
  rfl

/-- A line has one link at most. -/
theorem nodup_map_line_links (s : Source) : ((View.ofSource s).links.map (·.line)).Nodup := by
  rw [map_line_links]
  exact (nodup_map_fst_statements s).sublist (map_fst_found_sublist ..)

theorem eq_of_line_links {j : Nat} {r r' : LinkRecord} (h : (View.ofSource s).links[k]? = some r)
    (h' : (View.ofSource s).links[j]? = some r') (hline : r.line = r'.line) : k = j := by
  refine (List.getElem?_inj ?_ (nodup_map_line_links s)).1 ?_
  · rw [List.length_map]
    exact (List.getElem?_eq_some_iff.1 h).1
  · rw [List.getElem?_map, List.getElem?_map, h, h', Option.map_some, Option.map_some, hline]

theorem getElem?_numberLinks {links : List (Nat × LinkLine)} {start k : Nat} {r : LinkRecord}
    (h : (numberLinks start links)[k]? = some r) :
    r.index = start + k ∧ links[k]? = some (r.line, r.link) := by
  rw [numberLinks, List.getElem?_map, List.getElem?_zipIdx, Option.map_map] at h
  obtain ⟨p, hp, rfl⟩ := Option.map_eq_some_iff.1 h
  exact ⟨rfl, hp⟩

/-- The links are numbered from zero on. -/
theorem index_of_getElem?_links {r : LinkRecord} (h : (View.ofSource s).links[k]? = some r) :
    r.index = k := by
  rw [links_ofSource] at h
  rw [(getElem?_numberLinks h).1, Nat.zero_add]

theorem mem_links {r : LinkRecord} (h : r ∈ (View.ofSource s).links) :
    (r.line, Statement.link r.link) ∈ statements s := by
  obtain ⟨k, hk⟩ := List.getElem?_of_mem h
  rw [links_ofSource] at hk
  have hmem := List.mem_of_getElem? (getElem?_numberLinks hk).2
  obtain ⟨st, hst, hlink⟩ := mem_found.1 hmem
  cases st with
  | link l =>
    obtain rfl := Option.some.inj hlink
    exact hst
  | _ => cases hlink

/-- A link statement is a link of the view. -/
theorem exists_mem_links {l : LinkLine} (h : (line, Statement.link l) ∈ statements s) :
    ∃ r ∈ (View.ofSource s).links, r.line = line ∧ r.link = l := by
  have hmem : (line, l) ∈ found Statement.link? (statements s) := mem_found.2 ⟨_, h, rfl⟩
  obtain ⟨k, hk⟩ := List.getElem?_of_mem hmem
  refine ⟨⟨k, line, l⟩, ?_, rfl, rfl⟩
  rw [links_ofSource, numberLinks]
  refine List.mem_map.2 ⟨((line, l), k), ?_, rfl⟩
  exact List.mk_mem_zipIdx_iff_getElem?.2 hk

/-- The properties that the directives give to the link number `i`, in order. -/
def propertiesAt (v : View) (i : Nat) : List Properties :=
  (v.linkStyles.filter fun p => p.2.target.positions.contains i).map (·.2.properties)

/-! ## Subgraphs -/

/-- The ids of the subgraphs, as they were opened. -/
def subgraphIds (v : View) : List Text :=
  v.subgraphs.map (·.id)

theorem subgraphIds_closeAt (i line : Nat) (v : View) :
    (Reader.closeAt i line v).subgraphIds = v.subgraphIds := by
  simp [subgraphIds, Reader.closeAt, map_modify_of_eq]

theorem subgraphIds_addMention (m : Mention) (t : NodeToken) (container : Option Nat) (v : View) :
    (v.addMention m t container).subgraphIds = v.subgraphIds := by
  cases container with
  | none => rfl
  | some i =>
    refine map_modify_of_eq (g := SubgraphRecord.id) (fun g => ?_) i v.subgraphs
    rw [SubgraphRecord.addMember]
    split <;> rfl

theorem subgraphIds_addMentions (container : Option Nat) (ms : List (Mention × NodeToken))
    (v : View) : (v.addMentions container ms).subgraphIds = v.subgraphIds := by
  induction ms generalizing v with
  | nil => rfl
  | cons p ms ih => exact (ih _).trans (subgraphIds_addMention p.1 p.2 container v)

theorem subgraphIds_step (r : Reader) (line : Nat) (st : Statement) :
    (r.step line st).view.subgraphIds = r.view.subgraphIds ++ st.subgraph?.toList := by
  cases st with
  | subgraphOpen header => simp [Reader.step, subgraphIds, Statement.subgraph?]
  | blockEnd =>
    rw [Reader.step]
    split
    · simp [Statement.subgraph?]
    · simpa [Statement.subgraph?] using subgraphIds_closeAt _ _ _
  | link l =>
    refine Eq.trans ?_ (List.append_nil _).symm
    exact subgraphIds_addMentions r.openBlocks.head? ((Statement.link l).mentions line) r.view
  | node n =>
    refine Eq.trans ?_ (List.append_nil _).symm
    exact subgraphIds_addMentions r.openBlocks.head? ((Statement.node n).mentions line) r.view
  | _ => simp [Reader.step, subgraphIds, Statement.subgraph?]

theorem subgraphIds_readAll (r : Reader) (sts : List (Nat × Statement)) :
    (r.readAll sts).view.subgraphIds =
      r.view.subgraphIds ++ (sts.map Prod.snd).filterMap Statement.subgraph? := by
  induction sts generalizing r with
  | nil => simp
  | cons p sts ih =>
    rw [Reader.readAll_cons, ih, subgraphIds_step, List.append_assoc]
    cases hp : p.2.subgraph? <;> simp [hp]

theorem subgraphIds_finish (length : Nat) (r : Reader) :
    (r.finish length).subgraphIds = r.view.subgraphIds := by
  have hclose : ∀ (is : List Nat) (v : View),
      (is.foldl (fun v i => Reader.closeAt i (length - 1) v) v).subgraphIds = v.subgraphIds := by
    intro is
    induction is with
    | nil => exact fun _ => rfl
    | cons i is ih => exact fun v => (ih _).trans (subgraphIds_closeAt i _ v)
  rw [Reader.finish, ← hclose r.openBlocks r.view, dropSubgraphIds, subgraphIds, subgraphIds,
    List.map_map]
  rfl

/-- The subgraphs are those that the lines open. -/
theorem subgraphIds_ofSource (s : Source) : (View.ofSource s).subgraphIds =
    ((statements s).map Prod.snd).filterMap Statement.subgraph? := by
  rw [View.ofSource_eq, subgraphIds_finish, subgraphIds_readAll]
  rfl

/-- Every subgraph starts and ends on lines that satisfy `P`, and ends in front of the line `n`. -/
def SpansWithin (P : Nat → Prop) (n : Nat) (v : View) : Prop :=
  ∀ g ∈ v.subgraphs, (P g.span.start ∧ P g.span.stop) ∧
    g.span.start ≤ g.span.stop ∧ g.span.stop < n

namespace SpansWithin

variable {P : Nat → Prop} {n m length : Nat} {v : View}

theorem mono (h : v.SpansWithin P n) (hn : n ≤ m) : v.SpansWithin P m := fun g hg =>
  ⟨(h g hg).1, (h g hg).2.1, Nat.lt_of_lt_of_le (h g hg).2.2 hn⟩

theorem closeAt (h : v.SpansWithin P n) (hn : n ≤ line + 1) (hline : v.subgraphs ≠ [] → P line)
    (i : Nat) : (Reader.closeAt i line v).SpansWithin P (line + 1) := by
  intro g hg
  rcases mem_modify hg with hg | ⟨g', hg', rfl⟩
  · exact h.mono hn g hg
  · obtain ⟨⟨hstart, -⟩, hle, hlt⟩ := h g' hg'
    refine ⟨⟨hstart, hline (List.ne_nil_of_mem hg')⟩, ?_, Nat.lt_succ_self line⟩
    change g'.span.start ≤ line
    omega

theorem addMention (h : v.SpansWithin P n) (m : Mention) (t : NodeToken) (container : Option Nat) :
    (v.addMention m t container).SpansWithin P n := by
  cases container with
  | none => exact h
  | some i =>
    intro g hg
    rcases mem_modify hg with hg | ⟨g', hg', rfl⟩
    · exact h g hg
    · rw [SubgraphRecord.addMember]
      split <;> exact h g' hg'

theorem addMentions (h : v.SpansWithin P n) (container : Option Nat)
    (ms : List (Mention × NodeToken)) : (v.addMentions container ms).SpansWithin P n := by
  induction ms generalizing v with
  | nil => exact h
  | cons p ms ih => exact ih (h.addMention p.1 p.2 container)

theorem step (h : r.view.SpansWithin P n) (hn : n ≤ line) (hline : P line) (st : Statement) :
    (r.step line st).view.SpansWithin P (line + 1) := by
  have hnext : r.view.SpansWithin P (line + 1) := h.mono (Nat.le_succ_of_le hn)
  cases st with
  | subgraphOpen header =>
    intro g hg
    rcases List.mem_append.1 hg with hg | hg
    · exact hnext g hg
    · rw [List.mem_singleton.1 hg]
      exact ⟨⟨hline, hline⟩, Nat.le_refl line, Nat.lt_succ_self line⟩
  | blockEnd =>
    rw [Reader.step]
    split
    exacts [hnext, h.closeAt (Nat.le_succ_of_le hn) (fun _ => hline) _]
  | link l => exact hnext.addMentions r.openBlocks.head? ((Statement.link l).mentions line)
  | node m => exact hnext.addMentions r.openBlocks.head? ((Statement.node m).mentions line)
  | _ => exact hnext

/-- Lines that are read from above, up to the line `m`. -/
theorem readAll (h : r.view.SpansWithin P n) (hn : n ≤ m)
    (hsorted : sts.Pairwise fun p q => p.1 < q.1)
    (hlines : ∀ p ∈ sts, P p.1 ∧ n ≤ p.1 ∧ p.1 < m) : (r.readAll sts).view.SpansWithin P m := by
  induction sts generalizing r n with
  | nil => exact h.mono hn
  | cons p sts ih =>
    obtain ⟨hlt, hsorted⟩ := List.pairwise_cons.1 hsorted
    obtain ⟨⟨hp, hle, hm⟩, hlines⟩ := List.forall_mem_cons.1 hlines
    exact ih (h.step hle hp p.2) hm hsorted fun q hq => ⟨(hlines q hq).1, hlt q hq, (hlines q hq).2.2⟩

theorem finish (h : r.view.SpansWithin P length)
    (hlast : r.view.subgraphs ≠ [] → P (length - 1)) : (r.finish length).SpansWithin P length := by
  have hclose : ∀ (is : List Nat) (v : View), v.SpansWithin P length →
      (v.subgraphs ≠ [] → P (length - 1)) →
        (is.foldl (fun v i => Reader.closeAt i (length - 1) v) v).SpansWithin P length := by
    intro is
    induction is with
    | nil => exact fun _ h _ => h
    | cons i is ih =>
      intro v hv hlast
      refine ih _ (fun g hg => ?_) fun hne => hlast ?_
      · -- A source with a subgraph has a last line.
        obtain ⟨g', hg'⟩ : ∃ g', g' ∈ v.subgraphs := by
          rcases mem_modify hg with hg | ⟨g', hg', -⟩
          exacts [⟨g, hg⟩, ⟨g', hg'⟩]
        have hpos := (hv g' hg').2.2
        exact (hv.closeAt (by omega) hlast i).mono (by omega) g hg
      · simpa [Reader.closeAt] using hne
  intro g hg
  obtain ⟨g', hg', rfl⟩ := List.mem_map.1 hg
  exact hclose r.openBlocks r.view h hlast g' hg'

end SpansWithin

theorem pairwise_statements (s : Source) : (statements s).Pairwise fun p q => p.1 < q.1 := by
  rw [statements, List.pairwise_map, body_eq_numbered]
  exact pairwise_numbered _ _

/-- Every subgraph starts and ends in the body. -/
theorem spansWithin_ofSource (s : Source) : (View.ofSource s).SpansWithin
    (fun i => ∃ text, (i, text) ∈ s.body .flowchart) s.length := by
  have hlines : ∀ p ∈ statements s, (∃ text, (p.1, text) ∈ s.body .flowchart) ∧
      0 ≤ p.1 ∧ p.1 < s.length := by
    intro p hp
    obtain ⟨text, hmem, -⟩ := mem_statements.1 hp
    exact ⟨⟨text, hmem⟩, Nat.zero_le _, (exists_mem_body_iff.1 ⟨text, hmem⟩).2⟩
  have hread : ((Reader.start s).readAll (statements s)).view.SpansWithin
      (fun i => ∃ text, (i, text) ∈ s.body .flowchart) s.length :=
    SpansWithin.readAll nofun (Nat.zero_le _) (pairwise_statements s) hlines
  rw [ofSource_eq]
  refine hread.finish fun hne => ?_
  -- A subgraph is opened on a line of the body, and the body reaches to the last line.
  obtain ⟨g, hg⟩ := List.exists_mem_of_ne_nil _ hne
  obtain ⟨hle, hlt⟩ := exists_mem_body_iff.1 (hread g hg).1.1
  exact exists_mem_body_iff.2 ⟨by omega, by omega⟩

/-- Every subgraph starts and ends behind the line `n`. -/
def SubgraphsBehind (n : Nat) (v : View) : Prop :=
  ∀ g ∈ v.subgraphs, n < g.span.start ∧ n < g.span.stop

/-- Below a declaration, every subgraph starts and ends behind it. -/
theorem subgraphsBehind_ofSource {front body : List Text} {text : Text}
    (h : IsDeclared .flowchart front text body s) : SubgraphsBehind front.length (View.ofSource s) := by
  have hbehind : ∀ {i : Nat}, (∃ t, (i, t) ∈ s.body .flowchart) → front.length < i := by
    rintro i ⟨t, hmem⟩
    rw [h.body_eq] at hmem
    exact (mem_numbered.1 hmem).1
  exact fun g hg => (spansWithin_ofSource s g hg).1.imp hbehind hbehind

theorem lt_stop_of_mem_subgraphs {front body : List Text} {text : Text}
    (h : IsDeclared .flowchart front text body s) {g : SubgraphRecord}
    (hg : g ∈ (View.ofSource s).subgraphs) : front.length < g.span.stop :=
  (subgraphsBehind_ofSource h g hg).2

/-! ## Nodes -/

/-- The record without the subgraph that the node belongs to. -/
def withoutSubgraph (n : NodeRecord) : NodeRecord :=
  { n with subgraph := none }

/-- What some mentions say about the node, its subgraph apart. -/
def gather (id : Text) (ms : List (Mention × NodeToken)) : NodeRecord :=
  ms.foldl (fun n p => n.addMention p.1 p.2 none) { id }

/-- The mentions of one node. -/
def mentionsOf (id : Text) (ms : List (Mention × NodeToken)) : List (Mention × NodeToken) :=
  ms.filter fun p => p.2.id = id

/-- The records hold the mentions: one record for each node that is mentioned, with its mentions in
order. -/
structure IsGathered (nodes : List NodeRecord) (ms : List (Mention × NodeToken)) : Prop where
  nodup : (nodes.map (·.id)).Nodup
  complete : ∀ p ∈ ms, ∃ n ∈ nodes, n.id = p.2.id
  mentioned : ∀ n ∈ nodes, mentionsOf n.id ms ≠ []
  record : ∀ n ∈ nodes, withoutSubgraph n = gather n.id (mentionsOf n.id ms)

theorem mentionsOf_append_self (id : Text) (ms : List (Mention × NodeToken))
    {p : Mention × NodeToken} (h : p.2.id = id) : mentionsOf id (ms ++ [p]) = mentionsOf id ms ++ [p] := by
  simp [mentionsOf, h]

theorem mentionsOf_append_of_ne (id : Text) (ms : List (Mention × NodeToken))
    {p : Mention × NodeToken} (h : p.2.id ≠ id) : mentionsOf id (ms ++ [p]) = mentionsOf id ms := by
  simp [mentionsOf, h]

theorem withoutSubgraph_addMention (m : Mention) (t : NodeToken) (container : Option Text)
    (n : NodeRecord) : withoutSubgraph (n.addMention m t container) =
      (withoutSubgraph n).addMention m t none := rfl

theorem gather_append (id : Text) (ms : List (Mention × NodeToken)) (p : Mention × NodeToken) :
    gather id (ms ++ [p]) = (gather id ms).addMention p.1 p.2 none := by
  rw [gather, List.foldl_append]
  rfl

/-- One more mention changes the record of its node, or makes one. -/
theorem mem_alterNode {f : NodeRecord → NodeRecord} {nodes : List NodeRecord}
    (hnodup : (nodes.map (·.id)).Nodup) {n : NodeRecord} (h : n ∈ alterNode id f nodes) :
    (n ∈ nodes ∧ n.id ≠ id) ∨ (∃ n' ∈ nodes, n'.id = id ∧ n = f n') ∨
      ((∀ n' ∈ nodes, n'.id ≠ id) ∧ n = f { id }) := by
  induction nodes with
  | nil => exact .inr (.inr ⟨by simp, List.mem_singleton.1 h⟩)
  | cons m nodes ih =>
    rw [List.map_cons, List.nodup_cons] at hnodup
    rw [alterNode] at h
    split at h
    · next hm =>
      rcases List.mem_cons.1 h with rfl | h
      · exact .inr (.inl ⟨m, List.mem_cons_self, hm, rfl⟩)
      · refine .inl ⟨List.mem_cons_of_mem m h, fun hn => hnodup.1 ?_⟩
        exact List.mem_map.2 ⟨n, h, hn.trans hm.symm⟩
    · next hm =>
      rcases List.mem_cons.1 h with rfl | h
      · exact .inl ⟨List.mem_cons_self, hm⟩
      · rcases ih hnodup.2 h with ⟨h, hne⟩ | ⟨n', hn', hid, rfl⟩ | ⟨hno, rfl⟩
        · exact .inl ⟨List.mem_cons_of_mem m h, hne⟩
        · exact .inr (.inl ⟨n', List.mem_cons_of_mem m hn', hid, rfl⟩)
        · refine .inr (.inr ⟨?_, rfl⟩)
          intro n' hn'
          rcases List.mem_cons.1 hn' with rfl | hn'
          exacts [hm, hno n' hn']

theorem map_id_alterNode {f : NodeRecord → NodeRecord} (hf : ∀ n, (f n).id = n.id)
    (nodes : List NodeRecord) : (alterNode id f nodes).map (·.id) =
      if id ∈ nodes.map (·.id) then nodes.map (·.id) else nodes.map (·.id) ++ [id] := by
  induction nodes with
  | nil => simp [alterNode, hf]
  | cons m nodes ih =>
    rw [alterNode]
    by_cases hm : m.id = id
    · simp [hm, hf]
    · rw [if_neg hm, List.map_cons, ih]
      by_cases hid : id ∈ nodes.map (·.id)
      · rw [if_pos hid, if_pos (by simp [hid])]
        rfl
      · rw [if_neg hid, if_neg (by simpa [Ne.symm hm] using hid)]
        rfl

theorem IsGathered.alterNode {nodes : List NodeRecord} {ms : List (Mention × NodeToken)}
    (h : IsGathered nodes ms) (p : Mention × NodeToken) (container : Option Text) :
    IsGathered (View.alterNode p.2.id (·.addMention p.1 p.2 container) nodes) (ms ++ [p]) := by
  have hids : (View.alterNode p.2.id (·.addMention p.1 p.2 container) nodes).map (·.id) =
      if p.2.id ∈ nodes.map (·.id) then nodes.map (·.id) else nodes.map (·.id) ++ [p.2.id] :=
    map_id_alterNode (f := (·.addMention p.1 p.2 container)) (fun _ => rfl) nodes
  refine ⟨?_, ?_, ?_, ?_⟩
  · rw [hids]
    split
    · exact h.nodup
    · next hno => exact List.nodup_append.2 ⟨h.nodup, by simp, by simpa using hno⟩
  · intro q hq
    have hmem : q.2.id ∈ (View.alterNode p.2.id (·.addMention p.1 p.2 container) nodes).map (·.id) := by
      rw [hids]
      rcases List.mem_append.1 hq with hq | hq
      · obtain ⟨n, hn, hid⟩ := h.complete q hq
        have := List.mem_map.2 ⟨n, hn, hid⟩
        split
        exacts [this, List.mem_append_left _ this]
      · rw [List.mem_singleton.1 hq]
        split
        exacts [‹_›, List.mem_append_right _ (List.mem_singleton.2 rfl)]
    obtain ⟨n, hn, hid⟩ := List.mem_map.1 hmem
    exact ⟨n, hn, hid⟩
  · intro n hn
    rcases mem_alterNode h.nodup hn with ⟨hn, hne⟩ | ⟨n', hn', hid, rfl⟩ | ⟨hno, rfl⟩
    · rw [mentionsOf_append_of_ne _ _ (Ne.symm hne)]
      exact h.mentioned n hn
    · rw [mentionsOf_append_self]
      · simp
      · exact hid.symm
    · rw [mentionsOf_append_self]
      · simp
      · rfl
  · intro n hn
    rcases mem_alterNode h.nodup hn with ⟨hn, hne⟩ | ⟨n', hn', hid, rfl⟩ | ⟨hno, rfl⟩
    · rw [mentionsOf_append_of_ne _ _ (Ne.symm hne)]
      exact h.record n hn
    · rw [withoutSubgraph_addMention, h.record n' hn']
      change _ = gather n'.id (mentionsOf n'.id (ms ++ [p]))
      rw [mentionsOf_append_self _ _ hid.symm, gather_append]
    · rw [withoutSubgraph_addMention]
      change _ = gather p.2.id (mentionsOf p.2.id (ms ++ [p]))
      have hnil : mentionsOf p.2.id ms = [] := by
        refine List.filter_eq_nil_iff.2 fun q hq => ?_
        obtain ⟨n, hn, hid⟩ := h.complete q hq
        simpa [hid] using hno n hn
      rw [mentionsOf_append_self _ _ rfl, hnil, List.nil_append]
      rfl

/-- All mentions of nodes in the statements. -/
def mentions (sts : List (Nat × Statement)) : List (Mention × NodeToken) :=
  sts.flatMap fun p => p.2.mentions p.1

theorem IsGathered.addMentions {v : View} {ms : List (Mention × NodeToken)}
    (h : IsGathered v.nodes ms) (container : Option Nat) (more : List (Mention × NodeToken)) :
    IsGathered (v.addMentions container more).nodes (ms ++ more) := by
  induction more generalizing v ms with
  | nil =>
    rw [List.append_nil]
    exact h
  | cons p more ih =>
    obtain ⟨c, hc⟩ : ∃ c, (v.addMention p.1 p.2 container).nodes =
        View.alterNode p.2.id (·.addMention p.1 p.2 c) v.nodes := ⟨_, rfl⟩
    have hnext := h.alterNode p c
    rw [← hc] at hnext
    have := ih hnext
    rwa [List.append_assoc] at this

theorem IsGathered.step {r : Reader} {ms : List (Mention × NodeToken)}
    (h : IsGathered r.view.nodes ms) (line : Nat) (st : Statement) :
    IsGathered (r.step line st).view.nodes (ms ++ st.mentions line) := by
  cases st with
  | link l => exact h.addMentions r.openBlocks.head? ((Statement.link l).mentions line)
  | node n => exact h.addMentions r.openBlocks.head? ((Statement.node n).mentions line)
  | blockEnd =>
    rw [Statement.mentions, List.append_nil, Reader.step]
    · split <;> exact h
    · simp
    · simp
  | _ =>
    rw [show Statement.mentions line _ = [] from rfl, List.append_nil]
    exact h

theorem IsGathered.readAll {r : Reader} {ms : List (Mention × NodeToken)}
    (h : IsGathered r.view.nodes ms) (sts : List (Nat × Statement)) :
    IsGathered (r.readAll sts).view.nodes (ms ++ mentions sts) := by
  induction sts generalizing r ms with
  | nil =>
    rw [show mentions [] = [] from rfl, List.append_nil]
    exact h
  | cons p sts ih =>
    have := ih (h.step p.1 p.2)
    rwa [List.append_assoc] at this

theorem isGathered_readAll (s : Source) :
    IsGathered ((Reader.start s).readAll (statements s)).view.nodes (mentions (statements s)) := by
  have hstart : IsGathered (Reader.start s).view.nodes [] :=
    ⟨List.nodup_nil, by simp, by simp [Reader.start], by simp [Reader.start]⟩
  exact hstart.readAll (statements s)

theorem nodes_finish (length : Nat) (r : Reader) : (r.finish length).nodes =
    r.view.nodes.filter fun n => !r.view.subgraphIds.contains n.id := by
  have hclose : ∀ (is : List Nat) (v : View),
      (is.foldl (fun v i => Reader.closeAt i (length - 1) v) v).nodes = v.nodes ∧
        (is.foldl (fun v i => Reader.closeAt i (length - 1) v) v).subgraphIds = v.subgraphIds := by
    intro is
    induction is with
    | nil => exact fun _ => ⟨rfl, rfl⟩
    | cons i is ih =>
      exact fun v => ⟨(ih _).1, (ih _).2.trans (subgraphIds_closeAt i _ v)⟩
  obtain ⟨hnodes, hids⟩ := hclose r.openBlocks r.view
  rw [← hnodes, ← hids]
  rfl

/-- The nodes of a source are the mentioned ones that name no subgraph. -/
theorem nodes_ofSource (s : Source) : (View.ofSource s).nodes =
    ((Reader.start s).readAll (statements s)).view.nodes.filter fun n =>
      !(View.ofSource s).subgraphIds.contains n.id := by
  rw [ofSource_eq, subgraphIds_finish, nodes_finish]

/-! ## One node -/

variable {n : NodeRecord}

theorem nodup_nodes (s : Source) : ((View.ofSource s).nodes.map (·.id)).Nodup := by
  rw [nodes_ofSource]
  exact (isGathered_readAll s).nodup.sublist (List.filter_sublist.map _)

theorem not_mem_subgraphIds (hn : n ∈ (View.ofSource s).nodes) :
    n.id ∉ (View.ofSource s).subgraphIds := by
  rw [nodes_ofSource] at hn
  simpa using (List.mem_filter.1 hn).2

theorem withoutSubgraph_eq (hn : n ∈ (View.ofSource s).nodes) :
    withoutSubgraph n = gather n.id (mentionsOf n.id (mentions (statements s))) := by
  rw [nodes_ofSource] at hn
  exact (isGathered_readAll s).record n (List.mem_filter.1 hn).1

theorem mentionsOf_ne_nil (hn : n ∈ (View.ofSource s).nodes) :
    mentionsOf n.id (mentions (statements s)) ≠ [] := by
  rw [nodes_ofSource] at hn
  exact (isGathered_readAll s).mentioned n (List.mem_filter.1 hn).1

theorem exists_mem_nodes {p : Mention × NodeToken} (hp : p ∈ mentions (statements s))
    (hid : p.2.id ∉ (View.ofSource s).subgraphIds) : ∃ n ∈ (View.ofSource s).nodes, n.id = p.2.id := by
  obtain ⟨n, hn, heq⟩ := (isGathered_readAll s).complete p hp
  refine ⟨n, ?_, heq⟩
  rw [nodes_ofSource]
  exact List.mem_filter.2 ⟨hn, by simpa [heq] using hid⟩

theorem node?_eq_some_iff : (View.ofSource s).node? id = some n ↔
    n ∈ (View.ofSource s).nodes ∧ n.id = id := by
  constructor
  · intro h
    exact ⟨List.mem_of_find?_eq_some h, by simpa using List.find?_some h⟩
  · rintro ⟨hn, rfl⟩
    have hnodup := nodup_nodes s
    rw [View.node?]
    generalize (View.ofSource s).nodes = nodes at *
    induction nodes with
    | nil => cases hn
    | cons m nodes ih =>
      rw [List.map_cons, List.nodup_cons] at hnodup
      rcases List.mem_cons.1 hn with rfl | hn
      · simp
      · have hne : m.id ≠ n.id := fun heq => hnodup.1 (List.mem_map.2 ⟨n, hn, heq.symm⟩)
        rw [List.find?_cons_of_neg (by simpa using hne), ih hn hnodup.2]

theorem mem_mentions {p : Mention × NodeToken} :
    p ∈ mentions sts ↔ ∃ q ∈ sts, p ∈ q.2.mentions q.1 :=
  List.mem_flatMap

/-- A token names a node or a subgraph. -/
theorem mem_ids_of_mem_mentions {p : Mention × NodeToken} (hp : p ∈ mentions (statements s)) :
    p.2.id ∈ (View.ofSource s).ids := by
  rw [View.ids, List.mem_append]
  by_cases hid : p.2.id ∈ (View.ofSource s).subgraphIds
  · exact .inr hid
  · obtain ⟨n, hn, heq⟩ := exists_mem_nodes hp hid
    exact .inl (heq ▸ List.mem_map_of_mem hn)

/-- Both ends of a link are known. -/
theorem ends_mem_ids {r : LinkRecord} (hr : r ∈ (View.ofSource s).links) :
    r.link.source.id ∈ (View.ofSource s).ids ∧ r.link.target.id ∈ (View.ofSource s).ids := by
  have hends : ∀ p ∈ (Statement.link r.link).mentions r.line, p.2.id ∈ (View.ofSource s).ids :=
    fun p hp => mem_ids_of_mem_mentions (mem_mentions.2 ⟨_, mem_links hr, hp⟩)
  simpa [Statement.mentions] using hends

theorem gather_mentions (id : Text) (ms : List (Mention × NodeToken)) :
    (gather id ms).mentions = ms.map Prod.fst := by
  have hfold : ∀ (ms : List (Mention × NodeToken)) (n : NodeRecord),
      (ms.foldl (fun n p => n.addMention p.1 p.2 none) n).mentions = n.mentions ++ ms.map Prod.fst := by
    intro ms
    induction ms with
    | nil => simp
    | cons p ms ih => intro n; rw [List.foldl_cons, ih]; simp [NodeRecord.addMention]
  exact hfold ms { id }

/-- The mentions of a record are those of its node in order. -/
theorem mentions_eq (hn : n ∈ (View.ofSource s).nodes) :
    n.mentions = (mentionsOf n.id (mentions (statements s))).map Prod.fst := by
  rw [← gather_mentions n.id, ← withoutSubgraph_eq hn]
  rfl

theorem mem_mentions_of_node {m : Mention} (hn : n ∈ (View.ofSource s).nodes) :
    m ∈ n.mentions ↔ ∃ t, (m, t) ∈ mentions (statements s) ∧ t.id = n.id := by
  rw [mentions_eq hn, List.mem_map]
  constructor
  · rintro ⟨⟨_, t⟩, hp, rfl⟩
    obtain ⟨hmem, hid⟩ := List.mem_filter.1 hp
    exact ⟨t, hmem, by simpa using hid⟩
  · rintro ⟨t, hmem, hid⟩
    exact ⟨(m, t), List.mem_filter.2 ⟨hmem, by simpa using hid⟩, rfl⟩

/-- The line of the definition is that of a mention. -/
theorem exists_mem_mentions_definitionLine (hn : n ∈ (View.ofSource s).nodes) {i : Nat}
    (h : n.definitionLine = some i) : ∃ m ∈ n.mentions, m.line = i := by
  have hfold : ∀ (ms : List (Mention × NodeToken)) (n : NodeRecord),
      (ms.foldl (fun n p => n.addMention p.1 p.2 none) n).definitionLine = some i →
        n.definitionLine = some i ∨ ∃ p ∈ ms, p.1.line = i := by
    intro ms
    induction ms with
    | nil => exact fun n h => .inl h
    | cons p ms ih =>
      intro n h
      rcases ih _ h with h | ⟨q, hq, hline⟩
      · obtain ⟨richer, hline⟩ : ∃ richer : Bool, (n.addMention p.1 p.2 none).definitionLine =
            if richer then some p.1.line else n.definitionLine := ⟨_, rfl⟩
        rw [hline] at h
        split at h
        · exact .inr ⟨p, List.mem_cons_self, Option.some.inj h⟩
        · exact .inl h
      · exact .inr ⟨q, List.mem_cons_of_mem _ hq, hline⟩
  have hgather : (gather n.id (mentionsOf n.id (mentions (statements s)))).definitionLine =
      some i := by
    rw [← withoutSubgraph_eq hn]
    exact h
  rcases hfold _ _ hgather with h | ⟨p, hp, hline⟩
  · cases h
  · rw [mentions_eq hn]
    exact ⟨p.1, List.mem_map_of_mem hp, hline⟩

/-- Of two definitions the richer one, the first if they are equally rich. -/
def pick (old : Option NodeDefinition) (new : NodeDefinition) : Option NodeDefinition :=
  match old with
  | none => some new
  | some old => if old.richness < new.richness then some new else some old

/-- The richest of some definitions, the first of these if there are several. -/
def richest (ds : List NodeDefinition) : Option NodeDefinition :=
  ds.foldl pick none

theorem pick_eq (old : Option NodeDefinition) (new : NodeDefinition) :
    ∃ d, pick old new = some d ∧ (d = new ∨ old = some d) := by
  cases old with
  | none => exact ⟨new, rfl, .inl rfl⟩
  | some old =>
    rw [pick]
    split
    exacts [⟨new, rfl, .inl rfl⟩, ⟨old, rfl, .inr rfl⟩]

theorem foldl_pick_mem {ds : List NodeDefinition} {old : Option NodeDefinition} {d : NodeDefinition}
    (h : ds.foldl pick old = some d) : d ∈ ds ∨ old = some d := by
  induction ds generalizing old with
  | nil => exact .inr h
  | cons e ds ih =>
    rcases ih h with h | h
    · exact .inl (List.mem_cons_of_mem e h)
    · obtain ⟨d', hd', hor⟩ := pick_eq old e
      rw [hd', Option.some.injEq] at h
      subst h
      rcases hor with rfl | hold
      exacts [.inl List.mem_cons_self, .inr hold]

theorem mem_of_richest {ds : List NodeDefinition} {d : NodeDefinition} (h : richest ds = some d) :
    d ∈ ds := by
  rcases foldl_pick_mem h with h | h
  exacts [h, nomatch h]

theorem isSome_foldl_pick {ds : List NodeDefinition} {old : Option NodeDefinition}
    (h : ds ≠ [] ∨ old.isSome) : (ds.foldl pick old).isSome := by
  induction ds generalizing old with
  | nil => simpa using h
  | cons e ds ih =>
    obtain ⟨d, hd, -⟩ := pick_eq old e
    exact ih (.inr (by rw [hd]; rfl))

theorem isSome_richest {ds : List NodeDefinition} : (richest ds).isSome ↔ ds ≠ [] := by
  refine ⟨?_, fun h => isSome_foldl_pick (.inl h)⟩
  rintro h rfl
  cases h

theorem gather_definition (id : Text) (ms : List (Mention × NodeToken)) :
    (gather id ms).definition = richest (ms.filterMap (·.2.definition)) := by
  have hfold : ∀ (ms : List (Mention × NodeToken)) (n : NodeRecord),
      (ms.foldl (fun n p => n.addMention p.1 p.2 none) n).definition =
        (ms.filterMap (·.2.definition)).foldl pick n.definition := by
    intro ms
    induction ms with
    | nil => exact fun _ => rfl
    | cons p ms ih =>
      intro n
      rw [List.foldl_cons, ih]
      cases hp : p.2.definition with
      | none => simp [NodeRecord.addMention, hp]
      | some d =>
        simp only [List.filterMap_cons, hp, List.foldl_cons]
        congr 1
        cases hn : n.definition <;> simp [NodeRecord.addMention, hp, hn, pick]
  exact hfold ms { id }

theorem map_snd_mentions (sts : List (Nat × Statement)) :
    (mentions sts).map Prod.snd = (sts.map Prod.snd).flatMap Statement.tokens := by
  induction sts with
  | nil => rfl
  | cons p sts ih =>
    rw [mentions, List.flatMap_cons, List.map_append, Statement.map_snd_mentions, List.map_cons,
      List.flatMap_cons, ← ih]
    rfl

theorem filterMap_mentionsOf (id : Text) (sts : List (Nat × Statement)) :
    (mentionsOf id (mentions sts)).filterMap (·.2.definition) =
      (sts.map Prod.snd).flatMap (Statement.definitionsOf id) := by
  have hmap : (mentionsOf id (mentions sts)).filterMap (·.2.definition) =
      (((sts.map Prod.snd).flatMap Statement.tokens).filter fun t => t.id = id).filterMap
        (·.definition) := by
    rw [← map_snd_mentions, mentionsOf, List.filter_map, List.filterMap_map]
    rfl
  rw [hmap, List.filter_flatMap, List.filterMap_flatMap]
  rfl

/-- The definitions are those of the mentions. -/
theorem mem_definitionsOf {d : NodeDefinition} : d ∈ (sts.map Prod.snd).flatMap (Statement.definitionsOf id) ↔
    ∃ m t, (m, t) ∈ mentions sts ∧ t.id = id ∧ t.definition = some d := by
  rw [← filterMap_mentionsOf]
  simp only [mentionsOf, List.mem_filterMap, List.mem_filter, decide_eq_true_eq, Prod.exists,
    and_assoc]

theorem line_defines_of_mem_mentions {m : Mention} {t : NodeToken} (h : (m, t) ∈ st.mentions line) :
    m.line = line ∧ m.defines = t.definition.isSome := by
  cases st with
  | link l =>
    rcases List.mem_cons.1 h with h | h
    · obtain ⟨rfl, rfl⟩ := Prod.mk.inj h
      exact ⟨rfl, rfl⟩
    · obtain ⟨rfl, rfl⟩ := Prod.mk.inj (List.mem_singleton.1 h)
      exact ⟨rfl, rfl⟩
  | node n =>
    obtain ⟨rfl, rfl⟩ := Prod.mk.inj (List.mem_singleton.1 h)
    exact ⟨rfl, rfl⟩
  | _ => cases h

theorem length_of_mem_mentions {m : Mention} {t : NodeToken} (h : (m, t) ∈ st.mentions line) :
    m.length = t.text.length := by
  cases st with
  | link l =>
    rcases List.mem_cons.1 h with h | h
    · obtain ⟨rfl, rfl⟩ := Prod.mk.inj h
      rfl
    · obtain ⟨rfl, rfl⟩ := Prod.mk.inj (List.mem_singleton.1 h)
      rfl
  | node n =>
    obtain ⟨rfl, rfl⟩ := Prod.mk.inj (List.mem_singleton.1 h)
    rfl
  | _ => cases h

/-- Whatever a line mentions is a node or a subgraph. -/
theorem exists_mem_nodes_of_token (hst : (i, st) ∈ statements s) (hid : id ∈ st.tokens.map (·.id))
    (hnode : id ∉ (View.ofSource s).subgraphIds) : ∃ n ∈ (View.ofSource s).nodes, n.id = id := by
  obtain ⟨t, ht, rfl⟩ := List.mem_map.1 hid
  rw [← Statement.map_snd_mentions i] at ht
  obtain ⟨⟨m, t⟩, hmt, rfl⟩ := List.mem_map.1 ht
  exact exists_mem_nodes (mem_mentions.2 ⟨_, hst, hmt⟩) hnode

/-- The lines with a mention of a node are those with its token. -/
theorem exists_mention_iff (hn : n ∈ (View.ofSource s).nodes) : (∃ m ∈ n.mentions, m.line = i) ↔
    ∃ st, (i, st) ∈ statements s ∧ n.id ∈ st.tokens.map (·.id) := by
  constructor
  · rintro ⟨m, hm, rfl⟩
    obtain ⟨t, hmem, hid⟩ := (mem_mentions_of_node hn).1 hm
    obtain ⟨⟨j, st⟩, hst, hmt⟩ := mem_mentions.1 hmem
    obtain ⟨rfl, -⟩ := line_defines_of_mem_mentions hmt
    refine ⟨st, hst, List.mem_map.2 ⟨t, ?_, hid⟩⟩
    rw [← Statement.map_snd_mentions m.line]
    exact List.mem_map_of_mem hmt
  · rintro ⟨st, hst, hid⟩
    obtain ⟨t, ht, hid⟩ := List.mem_map.1 hid
    rw [← Statement.map_snd_mentions i] at ht
    obtain ⟨⟨m, t⟩, hmt, rfl⟩ := List.mem_map.1 ht
    exact ⟨m, (mem_mentions_of_node hn).2 ⟨t, mem_mentions.2 ⟨_, hst, hmt⟩, hid⟩,
      (line_defines_of_mem_mentions hmt).1⟩

/-- The definition of a node is the richest of those in the statements. -/
theorem definition_eq (hn : n ∈ (View.ofSource s).nodes) :
    n.definition = richest (((statements s).map Prod.snd).flatMap (Statement.definitionsOf n.id)) := by
  rw [← filterMap_mentionsOf, ← gather_definition n.id, ← withoutSubgraph_eq hn]
  rfl

/-- A node is mentioned, and its id names no subgraph. -/
theorem isSome_node?_iff : ((View.ofSource s).node? id).isSome ↔
    id ∉ (View.ofSource s).subgraphIds ∧ mentionsOf id (mentions (statements s)) ≠ [] := by
  rw [Option.isSome_iff_exists]
  constructor
  · rintro ⟨n, h⟩
    obtain ⟨hn, rfl⟩ := node?_eq_some_iff.1 h
    exact ⟨not_mem_subgraphIds hn, mentionsOf_ne_nil hn⟩
  · rintro ⟨hid, hne⟩
    obtain ⟨p, hp⟩ := List.exists_mem_of_ne_nil _ hne
    obtain ⟨hmem, heq⟩ := List.mem_filter.1 hp
    obtain rfl : p.2.id = id := by simpa using heq
    obtain ⟨n, hn, heq⟩ := exists_mem_nodes hmem hid
    exact ⟨n, node?_eq_some_iff.2 ⟨hn, heq⟩⟩

/-- Two sources give a node the same definition if they mention it both or neither, and the richest of
its definitions is the same. -/
theorem definition_node?_congr {s' : Source}
    (hsubgraphs : (View.ofSource s').subgraphIds = (View.ofSource s).subgraphIds)
    (hmentions : mentionsOf id (mentions (statements s')) = [] ↔
      mentionsOf id (mentions (statements s)) = [])
    (hrichest : richest (((statements s').map Prod.snd).flatMap (Statement.definitionsOf id)) =
      richest (((statements s).map Prod.snd).flatMap (Statement.definitionsOf id))) :
    ((View.ofSource s').node? id).map (·.definition) =
      ((View.ofSource s).node? id).map (·.definition) := by
  have hsome : ((View.ofSource s').node? id).isSome ↔ ((View.ofSource s).node? id).isSome := by
    rw [isSome_node?_iff, isSome_node?_iff, hsubgraphs, Ne, Ne, hmentions]
  cases h : (View.ofSource s).node? id with
  | none =>
    rw [h] at hsome
    rw [Option.not_isSome_iff_eq_none.1 fun h' => absurd (hsome.1 h') (by simp)]
  | some n =>
    rw [h] at hsome
    obtain ⟨n', h'⟩ := Option.isSome_iff_exists.1 (hsome.2 rfl)
    obtain ⟨hn, rfl⟩ := node?_eq_some_iff.1 h
    obtain ⟨hn', hid⟩ := node?_eq_some_iff.1 h'
    rw [h', Option.map_some, Option.map_some, definition_eq hn, definition_eq hn', hid, hrichest]

/-! ## Lines -/

/-- Every line that the view remembers satisfies `P`, that of the declaration apart. -/
structure IsWithin (P : Nat → Prop) (v : View) : Prop where
  mentions : ∀ n ∈ v.nodes, ∀ m ∈ n.mentions, P m.line
  definitions : ∀ n ∈ v.nodes, ∀ i ∈ n.definitionLine, P i
  links : ∀ r ∈ v.links, P r.line
  subgraphs : ∀ g ∈ v.subgraphs, P g.span.start ∧ P g.span.stop
  styles : ∀ p ∈ v.styles, P p.1
  linkStyles : ∀ p ∈ v.linkStyles, P p.1
  classes : ∀ p ∈ v.classes, P p.1
  classDefs : ∀ p ∈ v.classDefs, P p.1

namespace IsWithin

variable {P Q : Nat → Prop} {v : View}

theorem mono (h : v.IsWithin P) (hPQ : ∀ i, P i → Q i) : v.IsWithin Q where
  mentions n hn m hm := hPQ _ (h.mentions n hn m hm)
  definitions n hn i hi := hPQ i (h.definitions n hn i hi)
  links r hr := hPQ _ (h.links r hr)
  subgraphs g hg := (h.subgraphs g hg).imp (hPQ _) (hPQ _)
  styles p hp := hPQ _ (h.styles p hp)
  linkStyles p hp := hPQ _ (h.linkStyles p hp)
  classes p hp := hPQ _ (h.classes p hp)
  classDefs p hp := hPQ _ (h.classDefs p hp)

end IsWithin

/-- The lines that the view remembers are lines of the body. -/
theorem isWithin_ofSource (s : Source) :
    (View.ofSource s).IsWithin fun i => ∃ text, (i, text) ∈ s.body .flowchart := by
  have hstatement : ∀ {i : Nat} {st : Statement}, (i, st) ∈ statements s →
      ∃ text, (i, text) ∈ s.body .flowchart := by
    intro i st hst
    obtain ⟨text, hmem, -⟩ := mem_statements.1 hst
    exact ⟨text, hmem⟩
  have hfound : ∀ {α : Type} {get : Statement → Option α} {p : Nat × α},
      p ∈ found get (statements s) → ∃ text, (p.1, text) ∈ s.body .flowchart := by
    intro α get p hp
    obtain ⟨st, hst, -⟩ := mem_found.1 hp
    exact hstatement hst
  have hmention : ∀ n ∈ (View.ofSource s).nodes, ∀ m ∈ n.mentions,
      ∃ text, (m.line, text) ∈ s.body .flowchart := by
    intro n hn m hm
    obtain ⟨t, hmem, -⟩ := (mem_mentions_of_node hn).1 hm
    obtain ⟨p, hp, hmem⟩ := mem_mentions.1 hmem
    rw [(line_defines_of_mem_mentions hmem).1]
    exact hstatement hp
  refine ⟨hmention, fun n hn i hi => ?_, fun r hr => hstatement (mem_links hr),
    fun g hg => (spansWithin_ofSource s g hg).1, ?_, ?_, ?_, ?_⟩
  · obtain ⟨m, hm, rfl⟩ := exists_mem_mentions_definitionLine hn hi
    exact hmention n hn m hm
  · exact styles_ofSource s ▸ fun p hp => hfound hp
  · exact linkStyles_ofSource s ▸ fun p hp => hfound hp
  · exact classes_ofSource s ▸ fun p hp => hfound hp
  · exact classDefs_ofSource s ▸ fun p hp => hfound hp

end View

end DiagramEditor.Flowchart
