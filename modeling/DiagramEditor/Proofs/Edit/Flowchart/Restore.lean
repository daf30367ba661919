import DiagramEditor.Proofs.Edit.Flowchart.Removal

/-!
# Mending what a removal took

After the removal, two phases insert lines into the body. The first writes definitions right below
the declaration, one for each neighbor that has none left (`restoreDefinitions_eq_ok`); the second
mentions neighbors at the ends of subgraphs (`restoreMembership_eq_ok`). Neither phase writes
anything but node lines, so the links, the directives and the headers of the kept lines are those of
the result (`deleteCascade_flatMap`).
-/

namespace DiagramEditor.Edit.Flowchart

open DiagramEditor.Flowchart Source Text
open NodeToken (IsIdent)

variable {front body : List Text} {line text : Text} {s s' : Source} {nodes : List NodeRecord}

/-! ## Definitions -/

/-- A definition that was read with some token. -/
def IsScanned (d : NodeDefinition) : Prop :=
  ∃ s token rest, NodeToken.scan? s = some (token, rest) ∧ token.definition = some d

/-- The nodes have ids, and their definitions were read. -/
def AreScanned (nodes : List NodeRecord) : Prop :=
  ∀ n ∈ nodes, IsIdent n.id ∧ ∀ d ∈ n.definition, IsScanned d

theorem areScanned_nodes (s : Source) : AreScanned (View.ofSource s).nodes := by
  have htoken : ∀ t ∈ ((statements s).map Prod.snd).flatMap Statement.tokens,
      ∃ s rest, NodeToken.scan? s = some (t, rest) := by
    intro t ht
    obtain ⟨st, hst, ht⟩ := List.mem_flatMap.1 ht
    obtain ⟨p, hp, rfl⟩ := List.mem_map.1 hst
    obtain ⟨text, -, heq⟩ := mem_statements.1 hp
    rw [heq] at ht
    exact exists_scan?_of_mem_tokens ht
  intro n hn
  constructor
  · obtain ⟨p, hp⟩ := List.exists_mem_of_ne_nil _ (View.mentionsOf_ne_nil hn)
    obtain ⟨hmem, hid⟩ := List.mem_filter.1 hp
    obtain ⟨_, _, hscan⟩ := htoken p.2 (by
      rw [← View.map_snd_mentions]
      exact List.mem_map_of_mem hmem)
    have := NodeToken.isIdent_of_scan? hscan
    rwa [of_decide_eq_true hid] at this
  · intro d hd
    rw [View.definition_eq hn] at hd
    obtain ⟨m, t, hmt, -, hdef⟩ := View.mem_definitionsOf.1 (View.mem_of_richest hd)
    obtain ⟨u, rest, hscan⟩ := htoken t (by
      rw [← View.map_snd_mentions]
      exact List.mem_map_of_mem hmt)
    exact ⟨u, t, rest, hscan, hdef⟩

/-- The definitions that are written anew: those of the nodes without a definition in the view. -/
def restored (after : View) (nodes : List NodeRecord) : List (Text × NodeDefinition) :=
  nodes.filterMap fun n => n.definition.bind fun d =>
    if (after.node? n.id).any (·.definition.isSome) then none else some (n.id, d)

/-- The lines with these definitions. -/
def definitionLines (indent : Text) (ds : List (Text × NodeDefinition)) : List Text :=
  ds.map fun p => indent ++ p.2.render p.1

theorem mem_restored {after : View} {id : Text} {d : NodeDefinition} :
    (id, d) ∈ restored after nodes ↔ ∃ n ∈ nodes, n.id = id ∧ n.definition = some d ∧
      ∀ m, after.node? id = some m → m.definition = none := by
  simp only [restored, List.mem_filterMap, Option.bind_eq_some_iff, Option.ite_none_left_eq_some,
    Option.some.injEq, Prod.mk.injEq, Option.any_eq_true, not_exists, not_and]
  constructor
  · rintro ⟨n, hn, e, he, hno, rfl, rfl⟩
    exact ⟨n, hn, rfl, he, fun m hm => Option.not_isSome_iff_eq_none.1 (hno m hm)⟩
  · rintro ⟨n, hn, rfl, he, hno⟩
    exact ⟨n, hn, d, he, fun m hm => by simp [hno m hm], rfl, rfl⟩

/-- The first phase writes the definitions right below the declaration. -/
theorem restoreDefinitions_eq_ok (hdecl : IsDeclared .flowchart front line body s)
    (hok : restoreDefinitions nodes s = .ok s') : ∃ w, IsBlank w ∧ IsDeclared .flowchart front line
      (definitionLines w (restored (View.ofSource s) nodes) ++ body) s' := by
  have hlines : ∀ w, definitionLines w (restored (View.ofSource s) nodes) =
      nodes.filterMap fun n => do
        let definition ← n.definition
        guard !(((View.ofSource s).node? n.id).any (·.definition.isSome))
        return w ++ definition.render n.id := by
    intro w
    rw [definitionLines, restored, List.map_filterMap]
    refine List.filterMap_congr fun n _ => ?_
    cases n.definition with
    | none => rfl
    | some d => cases ((View.ofSource s).node? n.id).any (·.definition.isSome) <;> rfl
  refine ⟨_, isBlank_bodyIndent (View.ofSource s).declarationLine s, ?_⟩
  rw [restoreDefinitions, View.declarationLine_ofSource, hdecl.declarationOf?] at hok
  rw [View.declarationLine_ofSource, hdecl.declarationOf?]
  simp only [← hlines] at hok
  split at hok
  · next hnil =>
    obtain rfl := Except.ok.inj hok
    rw [List.isEmpty_iff.1 hnil]
    exact hdecl
  · obtain ⟨before, after, rfl, hlength, hdecl'⟩ := insertLines_body hdecl (by simp) hok
    obtain rfl := List.eq_nil_of_length_eq_zero (l := before) (by simpa using hlength)
    exact hdecl'

/-- What the definition lines say. -/
theorem ofLine_definitionLines {w : Text} (hw : IsBlank w) (after : View)
    (hnodes : AreScanned nodes) :
    (definitionLines w (restored after nodes)).map Statement.ofLine =
      (restored after nodes).map fun p =>
        .node ⟨w, ⟨p.1, some p.2, none, p.2.render p.1⟩, []⟩ := by
  rw [definitionLines, List.map_map]
  refine List.map_congr_left fun p hp => ?_
  obtain ⟨n, hn, hid, hd, -⟩ := mem_restored.1 (show (p.1, p.2) ∈ restored after nodes from hp)
  obtain ⟨hident, hscanned⟩ := hnodes n hn
  obtain ⟨u, token, rest, hscan, htoken⟩ := hscanned p.2 hd
  exact ofLine_render hscan htoken hw (hid ▸ hident)

/-! ## Mentions -/

/-- The line mentions one of the ids and nothing else. -/
def IsMentionLine (ids : List Text) (text : Text) : Prop :=
  ∃ w id, IsBlank w ∧ IsIdent id ∧ id ∈ ids ∧ text = w ++ id

/-- A node that is no member of the subgraph is mentioned on a line of its own where the subgraph
ends. -/
theorem restoreMember_cases {id name : Text} (hdecl : IsDeclared .flowchart front line body s)
    (hok : restoreMember id s name = .ok s') :
    s' = s ∧ (∀ g, (View.ofSource s).subgraph? name = some g → id ∈ g.members) ∨
      ∃ g before after w, (View.ofSource s).subgraph? name = some g ∧ IsBlank w ∧
        body = before ++ after ∧ front.length + 1 + before.length = g.span.stop ∧
        IsDeclared .flowchart front line (before ++ (w ++ id) :: after) s' := by
  rw [restoreMember] at hok
  split at hok
  · next hnone =>
    exact .inl ⟨(Except.ok.inj hok).symm, fun g hg => by rw [hnone] at hg; cases hg⟩
  · next g hg =>
    split at hok
    · next hmem =>
      refine .inl ⟨(Except.ok.inj hok).symm, fun g' hg' => ?_⟩
      rw [hg, Option.some.injEq] at hg'
      exact hg' ▸ List.contains_iff_mem.1 hmem
    · obtain ⟨endLine, -, hok⟩ := bind_eq_ok.1 hok
      have hstop := View.lt_stop_of_mem_subgraphs hdecl (List.mem_of_find?_eq_some hg)
      obtain ⟨before, after, hbody, hlength, hdecl'⟩ := insertLines_body hdecl hstop hok
      refine .inr ⟨g, before, after, indent endLine ++ indentStep, hg,
        (isBlank_indent endLine).append isBlank_indentStep, hbody, by omega, ?_⟩
      rw [List.append_assoc, List.singleton_append] at hdecl'
      exact hdecl'

theorem restoreMember_eq_ok {ids : List Text} {id g : Text} (hid : IsIdent id) (hmem : id ∈ ids)
    (hdecl : IsDeclared .flowchart front line body s) (hok : restoreMember id s g = .ok s') :
    ∃ body', Grown (IsMentionLine ids) body body' ∧ IsDeclared .flowchart front line body' s' := by
  rcases restoreMember_cases hdecl hok with ⟨rfl, -⟩ | ⟨_, before, after, w, -, hw, rfl, -, hdecl'⟩
  · exact ⟨body, .refl, hdecl⟩
  · exact ⟨_, Grown.insert .refl ⟨w, id, hw, hid, hmem, rfl⟩, hdecl'⟩

theorem restoreMembership_eq_ok {before : View} (hnodes : AreScanned nodes)
    (hdecl : IsDeclared .flowchart front line body s)
    (hok : restoreMembership before nodes s = .ok s') :
    ∃ body', Grown (IsMentionLine (nodes.map (·.id))) body body' ∧
      IsDeclared .flowchart front line body' s' := by
  let Mended (t : Source) : Prop := ∃ body', Grown (IsMentionLine (nodes.map (·.id))) body body' ∧
    IsDeclared .flowchart front line body' t
  refine foldlM_invariant (P := Mended) (fun n hn t t' ht hstep => ?_) ⟨body, .refl, hdecl⟩ hok
  refine foldlM_invariant (P := Mended) (fun g _ u u' hu hmember => ?_) ht hstep
  obtain ⟨body₁, hgrown, hdecl₁⟩ := hu
  obtain ⟨body₂, hgrown', hdecl₂⟩ :=
    restoreMember_eq_ok (hnodes n hn).1 (List.mem_map_of_mem hn) hdecl₁ hmember
  exact ⟨body₂, hgrown.trans hgrown', hdecl₂⟩

/-- The ids of the subgraphs that have the node as a member. -/
def containers (v : View) (n : NodeRecord) : List Text :=
  (v.subgraphs.filter fun g => g.members.contains n.id).map (·.id)

/-- Where every mention adds something and takes nothing back, the second phase adds what all of them
do. -/
theorem restoreMembership_adds {γ : Type} {before : View} {P : Source → Prop} {R : Source → γ → Prop}
    {N : NodeRecord → Text → γ → Prop}
    (hstep : ∀ n ∈ nodes, ∀ name ∈ containers before n, ∀ t t', P t →
      restoreMember n.id t name = .ok t' → P t' ∧ ∀ x, R t' x ↔ R t x ∨ N n name x)
    (hs : P s) (hok : restoreMembership before nodes s = .ok s') :
    P s' ∧ ∀ x, R s' x ↔ R s x ∨ ∃ n ∈ nodes, ∃ name ∈ containers before n, N n name x :=
  foldlM_adds (fun n hn _ _ ht hnode =>
    foldlM_adds (fun name hname t t' => hstep n hn name hname t t') ht hnode) hs hok

end DiagramEditor.Edit.Flowchart
