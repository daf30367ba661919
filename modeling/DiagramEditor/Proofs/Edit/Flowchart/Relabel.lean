import DiagramEditor.Proofs.Edit.Batch
import DiagramEditor.Proofs.Edit.Flowchart.Flat
import DiagramEditor.Proofs.Edit.Flowchart.Restore
import DiagramEditor.Proofs.Flowchart.Relabel

/-!
# Labels and shapes touch only their node

Another label or shape for a node rewrites the mentions that define it, the last one first, and what
comes out is the source with exactly these mentions defined anew (`foldlM_redefinedMentions`). If no
link into such a mention leaves a label open that the new text would end (`IsShielded`), the view
differs in the definition of the node only, and doing the same once more changes nothing
(`applyOps_isRelabeled`).

Without this condition a link can be lost. In the link from `A[("x]` to `B` the source is a
rectangle, as no shape that begins with `[(` is closed on the line. The label `)]` for `B` closes one
(`not_applyOps_isRelabeled`).
-/

namespace DiagramEditor.Edit.Flowchart

open DiagramEditor.Flowchart Source Text
open DiagramEditor.Flowchart.View (mentions mentionsOf)

variable {s s' : Source} {id label : Text} {n n' : NodeRecord} {m : Mention} {t : NodeToken}
  {rebuild : Option NodeDefinition → NodeDefinition} {front after : List Text} {a rest : Text}
  {newline : Bool} {l : LinkLine} {chosen : Mention → Bool}

section DefiningOrFirst

variable {α β : Type} {defines defines' : α → Bool} {l : List α}

/-- The entries that define something, or the first one if none does. -/
def definingOrFirst (defines : α → Bool) (l : List α) : List α :=
  if (l.filter defines).isEmpty then l.take 1 else l.filter defines

theorem definingOrFirst_map (defines : β → Bool) (f : α → β) (l : List α) :
    definingOrFirst defines (l.map f) = (definingOrFirst (defines ∘ f) l).map f := by
  rw [definingOrFirst, definingOrFirst, List.filter_map, List.isEmpty_map, ← List.map_take]
  split <;> rfl

theorem definingOrFirst_congr (h : ∀ a ∈ l, defines a = defines' a) :
    definingOrFirst defines l = definingOrFirst defines' l := by
  rw [definingOrFirst, definingOrFirst, List.filter_congr h]

theorem definingOrFirst_sublist (defines : α → Bool) (l : List α) :
    (definingOrFirst defines l).Sublist l := by
  rw [definingOrFirst]
  split
  exacts [List.take_sublist .., List.filter_sublist]

end DefiningOrFirst

/-- The mentions that are defined anew, in the order of the source. -/
def chosenMentions (n : NodeRecord) : List Mention :=
  if (n.mentions.filter (·.defines)).isEmpty then n.mentions.take 1
  else n.mentions.filter (·.defines)

theorem chosenMentions_eq (n : NodeRecord) :
    chosenMentions n = definingOrFirst (·.defines) n.mentions := rfl

theorem chosenMentions_sublist (n : NodeRecord) : (chosenMentions n).Sublist n.mentions :=
  definingOrFirst_sublist _ _

theorem mem_chosenMentions_of_defines (hm : m ∈ n.mentions) (hdefines : m.defines = true) :
    m ∈ chosenMentions n := by
  have hmem : m ∈ n.mentions.filter (·.defines) := List.mem_filter.2 ⟨hm, hdefines⟩
  rw [chosenMentions, if_neg]
  · exact hmem
  · rw [List.isEmpty_iff]
    exact List.ne_nil_of_mem hmem

theorem defines_of_mem_chosenMentions {m' : Mention} (hm : m ∈ chosenMentions n)
    (hm' : m' ∈ n.mentions) (hdefines : m'.defines = true) : m.defines = true := by
  have hmem : m' ∈ n.mentions.filter (·.defines) := List.mem_filter.2 ⟨hm', hdefines⟩
  have hne : ¬(n.mentions.filter (·.defines)).isEmpty = true := by
    rw [List.isEmpty_iff]
    exact List.ne_nil_of_mem hmem
  rw [chosenMentions, if_neg hne] at hm
  exact (List.mem_filter.1 hm).2

theorem exists_mem_chosenMentions (hn : n ∈ (View.ofSource s).nodes) :
    ∃ m, m ∈ chosenMentions n := by
  have hne : n.mentions ≠ [] := by
    rw [View.mentions_eq hn, Ne, List.map_eq_nil_iff]
    exact View.mentionsOf_ne_nil hn
  obtain ⟨m, ms, hms⟩ := List.exists_cons_of_ne_nil hne
  rw [chosenMentions]
  split
  · exact ⟨m, by rw [hms]; exact List.mem_cons_self⟩
  · next hsome => exact List.exists_mem_of_ne_nil _ (by simpa using hsome)

theorem eq_of_not_before {ms : List Mention} {a b : Mention} (h : ms.Pairwise Before) (ha : a ∈ ms)
    (hb : b ∈ ms) (hline : a.line = b.line) (hstart : a.start = b.start) : a = b := by
  by_contra hne
  have hboth : ms.Pairwise fun a b => Before a b ∨ Before b a := h.imp .inl
  have hsymm : Std.Symm fun a b => Before a b ∨ Before b a := ⟨fun _ _ h => h.symm⟩
  rcases hboth.forall ha hb hne with h | h <;> rcases h with h | ⟨-, h⟩ <;> omega

/-- The mentions are gone through from the last one to the first. -/
theorem redefinedMentions_eq (hn : n ∈ (View.ofSource s).nodes) :
    redefinedMentions n = (chosenMentions n).reverse := by
  have hordered : (chosenMentions n).Pairwise Before :=
    (List.pairwise_map.2 (pairwise_mentions s)).sublist
      ((chosenMentions_sublist n).trans (mentions_sublist hn))
  refine List.Perm.eq_of_pairwise ?_ (List.pairwise_mergeSort ?_ ?_ _) ?_
    ((List.mergeSort_perm _ _).trans (List.reverse_perm _).symm)
  · intro a b ha hb hab hba
    simp only [Bool.or_eq_true, Bool.and_eq_true, decide_eq_true_eq] at hab hba
    exact eq_of_not_before hordered (List.mem_mergeSort.1 ha) (List.mem_reverse.1 hb) (by omega)
      (by omega)
  · intro a b c hab hbc
    simp only [Bool.or_eq_true, Bool.and_eq_true, decide_eq_true_eq] at hab hbc ⊢
    omega
  · intro a b
    simp only [Bool.or_eq_true, Bool.and_eq_true, decide_eq_true_eq]
    omega
  · refine List.pairwise_reverse.2 (hordered.imp fun {a b} hab => ?_)
    simp only [Bool.or_eq_true, Bool.and_eq_true, decide_eq_true_eq]
    rcases hab with h | ⟨h, h'⟩ <;> omega

/-! ## One mention -/

theorem withClass_eq (text : Text) (suffix : Option Text) :
    withClass text suffix = text ++ NodeToken.classText suffix := by
  cases suffix <;> simp [withClass, NodeToken.classText]

/-- A token that stands on a line is defined anew there. -/
theorem redefineMention_eq (rebuild : Option NodeDefinition → NodeDefinition) (after : List Text)
    (newline : Bool) (hm : m.line = front.length) (hstart : m.start = a.length)
    (hscan : NodeToken.scan? (t.text ++ rest) = some (t, rest)) (hid : t.id = id) :
    redefineMention id rebuild ⟨front ++ (a ++ (t.text ++ rest)) :: after, newline⟩ m =
      .ok ⟨front ++ (a ++ ((t.redefine rebuild).text ++ rest)) :: after, newline⟩ := by
  have hline : lineAt m.line ⟨front ++ (a ++ (t.text ++ rest)) :: after, newline⟩ =
      .ok (a ++ (t.text ++ rest)) := by
    rw [lineAt, Source.line?, hm]
    simp
  have htoken : redefineToken? id rebuild m.start (a ++ (t.text ++ rest)) =
      some (a ++ ((t.redefine rebuild).text ++ rest)) := by
    rw [redefineToken?, hstart, List.drop_left, hscan, List.take_left, ← hid]
    simp [NodeToken.redefine, withClass_eq]
  have hreplace : Edit.replaceLine m.line (a ++ ((t.redefine rebuild).text ++ rest))
      ⟨front ++ (a ++ (t.text ++ rest)) :: after, newline⟩ =
      .ok ⟨front ++ (a ++ ((t.redefine rebuild).text ++ rest)) :: after, newline⟩ := by
    rw [Edit.replaceLine, Source.replaceLine, Source.length, if_pos (by simp [hm]), hm]
    simp [Except.mapError]
  rw [redefineMention, hline]
  simp only [bind, Except.bind, htoken]
  exact hreplace

theorem redefineMention_target (h : l.IsRead) (hid : l.target.id = id) :
    redefineMention id rebuild ⟨front ++ l.toLine :: after, newline⟩
      (l.targetMention front.length) =
      .ok ⟨front ++ (l.redefineTarget rebuild).toLine :: after, newline⟩ := by
  have hstart : (l.targetMention front.length).start =
      (l.lead ++ (l.source.text ++ l.between)).length := by
    simp [LinkLine.targetMention, LinkLine.targetStart, LinkLine.betweenStart, LinkLine.sourceStart,
      Nat.add_assoc]
  have hstep := redefineMention_eq rebuild after newline rfl hstart h.target hid
  rw [LinkLine.toLine_eq, LinkLine.toLine_eq]
  simpa [LinkLine.redefineTarget] using hstep

theorem redefineMention_source (h : l.IsRead) (hid : l.source.id = id)
    (hm : m.line = front.length) (hstart : m.start = l.sourceStart) :
    redefineMention id rebuild ⟨front ++ l.toLine :: after, newline⟩ m =
      .ok ⟨front ++ (l.redefineSource rebuild).toLine :: after, newline⟩ := by
  rw [LinkLine.toLine_eq, LinkLine.toLine_eq]
  exact redefineMention_eq rebuild after newline hm hstart h.source hid

/-- A token that is as it would be defined anew stays. -/
theorem redefineMention_self (hp : (m, t) ∈ mentions (statements s)) (hid : t.id = id)
    (hself : t.redefine rebuild = t) : redefineMention id rebuild s m = .ok s := by
  obtain ⟨⟨i, st⟩, hst, hmem⟩ := View.mem_mentions.1 hp
  obtain ⟨text, htext, rfl⟩ := exists_line_of_mem_statements hst
  obtain ⟨hi, rfl⟩ := List.getElem?_eq_some_iff.1 htext
  have hlength : i = (s.lines.take i).length := by
    rw [List.length_take, Nat.min_eq_left (Nat.le_of_lt hi)]
  have hlines : s = ⟨s.lines.take i ++ s.lines[i] :: s.lines.drop (i + 1), s.trailingNewline⟩ := by
    rw [← List.drop_eq_getElem_cons hi, List.take_append_drop]
  generalize s.lines[i] = line at hlines hmem
  obtain ⟨a, rest, rfl, hm, hstart, hscan⟩ := Statement.exists_scan?_of_mem_mentions hmem
  have hstep := redefineMention_eq rebuild (s.lines.drop (i + 1)) s.trailingNewline
    (hm.trans hlength) hstart hscan hid
  rwa [hself, ← hlines] at hstep

/-! ## All mentions -/

/-- The chosen mentions among some, the last one first. -/
def redefineAll (id : Text) (rebuild : Option NodeDefinition → NodeDefinition)
    (chosen : Mention → Bool) (ms : List (Mention × NodeToken)) (s : Source) :
    Except EditError Source :=
  ((ms.map Prod.fst).filter chosen).foldrM (fun m s => redefineMention id rebuild s m) s

theorem redefineAll_append (ms more : List (Mention × NodeToken)) (s : Source) :
    redefineAll id rebuild chosen (ms ++ more) s =
      redefineAll id rebuild chosen more s >>= redefineAll id rebuild chosen ms := by
  rw [redefineAll, List.map_append, List.filter_append, List.foldrM_append]
  rfl

theorem redefineAll_singleton (p : Mention × NodeToken) (s : Source) :
    redefineAll id rebuild chosen [p] s =
      if chosen p.1 then redefineMention id rebuild s p.1 else .ok s := by
  rw [redefineAll, List.map_singleton, List.filter_cons]
  split
  · exact bind_pure _
  · rfl

/-- The chosen mentions of one line are defined anew there. -/
theorem redefineAll_line {line : Text} (hr : NodeDefinition.Rebuilds rebuild)
    (hchooses : (Statement.ofLine line).Chooses chosen id front.length)
    (hshields : (Statement.ofLine line).Shields rebuild chosen front.length) :
    redefineAll id rebuild chosen ((Statement.ofLine line).mentions front.length)
      ⟨front ++ line :: after, newline⟩ =
      .ok ⟨front ++ redefinedLine rebuild chosen (front.length, line) :: after, newline⟩ := by
  have hreads := Statement.readsFrom_ofLine line
  rw [redefinedLine]
  dsimp only
  cases hst : Statement.ofLine line with
  | link l =>
    rw [hst] at hreads hchooses hshields
    obtain ⟨hread, rfl⟩ := LinkLine.ofLine?_eq_some_iff.1 hreads
    rw [Statement.Chooses, Statement.mentions_link] at hchooses
    rw [Statement.mentions_link]
    -- The target comes first, and the source is then read in front of the new target.
    rw [← List.singleton_append, redefineAll_append, redefineAll_singleton, Statement.redefine]
    have hsource := hchooses _ List.mem_cons_self
    have htarget := hchooses _ (List.mem_cons_of_mem _ List.mem_cons_self)
    dsimp only at hsource htarget ⊢
    by_cases ht : chosen (l.targetMention front.length) = true
    · rw [if_pos ht, if_pos ht, redefineMention_target hread (htarget ht)]
      change redefineAll id rebuild chosen [_] _ = _
      rw [redefineAll_singleton]
      dsimp only
      split
      · next hs =>
        exact redefineMention_source (hread.redefineTarget hr (hshields l rfl ht)) (hsource hs) rfl rfl
      · rfl
    · rw [if_neg ht, if_neg ht]
      change redefineAll id rebuild chosen [_] _ = _
      rw [redefineAll_singleton]
      dsimp only
      split
      · next hs => exact redefineMention_source hread (hsource hs) rfl rfl
      · rfl
  | node n =>
    rw [hst] at hreads hchooses
    obtain ⟨hread, rfl⟩ := NodeLine.ofLine?_eq_some_iff.1 hreads
    rw [Statement.Chooses, Statement.mentions_node] at hchooses
    rw [Statement.mentions_node, redefineAll_singleton, Statement.redefine]
    dsimp only
    split
    · next hc =>
      have hid := hchooses _ List.mem_cons_self hc
      exact redefineMention_eq rebuild after newline rfl rfl hread.token hid
    · rfl
  | _ => rfl

/-- The lines are rewritten from the last one to the first. -/
theorem redefineAll_lines (newline : Bool) (hr : NodeDefinition.Rebuilds rebuild)
    (front : List Text) {lines : List Text} (hlines : ∀ p ∈ numbered front.length lines, (Statement.ofLine p.2).Chooses chosen id p.1 ∧
      (Statement.ofLine p.2).Shields rebuild chosen p.1) :
    redefineAll id rebuild chosen (mentions ((numbered front.length lines).map fun p =>
      (p.1, Statement.ofLine p.2))) ⟨front ++ lines, newline⟩ =
      .ok ⟨front ++ (numbered front.length lines).map (redefinedLine rebuild chosen), newline⟩ := by
  induction lines generalizing front with
  | nil => rfl
  | cons line lines ih =>
    obtain ⟨hchooses, hshields⟩ := hlines (front.length, line) List.mem_cons_self
    have hnext : (front ++ [line]).length = front.length + 1 := by simp
    have hrest := ih (front ++ [line]) (by
      rw [hnext]
      exact fun p hp => hlines p (List.mem_cons_of_mem _ hp))
    rw [hnext, List.append_assoc, List.append_assoc, List.singleton_append, List.singleton_append]
      at hrest
    rw [numbered_cons, List.map_cons, List.map_cons, mentions, List.flatMap_cons, redefineAll_append,
      ← mentions, hrest]
    exact redefineAll_line hr hchooses hshields

/-- A sublist of a list without repetitions is what one finds of it there. -/
theorem filter_contains_of_sublist {α : Type} [BEq α] [LawfulBEq α] {l l' : List α}
    (h : l.Sublist l') (hnodup : l'.Nodup) : l'.filter l.contains = l := by
  induction h with
  | slnil => rfl
  | @cons l l' b h ih =>
    obtain ⟨hb, hnodup⟩ := List.nodup_cons.1 hnodup
    rw [List.filter_cons_of_neg (by simpa using fun hmem => hb (h.subset hmem)), ih hnodup]
  | @cons_cons l l' b h ih =>
    obtain ⟨hb, hnodup⟩ := List.nodup_cons.1 hnodup
    have hsame : l'.filter (b :: l).contains = l'.filter l.contains := by
      refine List.filter_congr fun a ha => ?_
      have hne : a ≠ b := ne_of_mem_of_not_mem ha hb
      rw [List.contains_cons, beq_false_of_ne hne, Bool.false_or]
    rw [List.filter_cons_of_pos (by simp), hsame, ih hnodup]

/-- No link into a mention that is defined anew leaves a label open that the new text ends. -/
def IsShielded (rebuild : Option NodeDefinition → NodeDefinition) (n : NodeRecord) (s : Source) :
    Prop :=
  ∀ r ∈ (View.ofSource s).links, r.link.targetMention r.line ∈ chosenMentions n →
    r.link.Shields (r.link.target.redefine rebuild).text

theorem isRedefinable (hn : n ∈ (View.ofSource s).nodes) (hr : NodeDefinition.Rebuilds rebuild)
    (hshielded : IsShielded rebuild n s) :
    IsRedefinable rebuild (chosenMentions n).contains n.id s where
  rebuilds := hr
  chooses := by
    intro p hp q hq hchosen
    have hmem : q ∈ mentions (statements s) := View.mem_mentions.2 ⟨p, hp, hq⟩
    have hmention := (chosenMentions_sublist n).subset (List.contains_iff_mem.1 hchosen)
    obtain ⟨t, ht, hid⟩ := (View.mem_mentions_of_node hn).1 hmention
    have hsame := List.inj_on_of_nodup_map (nodup_map_fst_mentions s) hmem ht rfl
    rw [hsame]
    exact hid
  shields := by
    rintro ⟨i, _⟩ hp l rfl hchosen
    obtain ⟨r, hr, rfl, rfl⟩ := View.exists_mem_links hp
    exact hshielded r hr (List.contains_iff_mem.1 hchosen)

/-- The mentions that define the node, or the first one, are defined anew and nothing else. -/
theorem foldlM_redefinedMentions (hn : n ∈ (View.ofSource s).nodes)
    (h : IsRedefinable rebuild (chosenMentions n).contains n.id s) :
    (redefinedMentions n).foldlM (redefineMention n.id rebuild) s =
      .ok (redefinedSource rebuild (chosenMentions n).contains s) := by
  have hchosen := filter_contains_of_sublist
    ((chosenMentions_sublist n).trans (mentions_sublist hn)) (nodup_map_fst_mentions s)
  have hfold : (redefinedMentions n).foldlM (redefineMention n.id rebuild) s =
      redefineAll n.id rebuild (chosenMentions n).contains (mentions (statements s)) s := by
    rw [redefinedMentions_eq hn, List.foldlM_reverse, redefineAll, hchosen]
  have hlength : (s.lines.take (s.bodyIndex .flowchart)).length = s.bodyIndex .flowchart := by
    rw [List.length_take, Nat.min_eq_left (bodyIndex_le _ _)]
  have hsafe : ∀ p ∈ numbered (s.lines.take (s.bodyIndex .flowchart)).length
      (s.lines.drop (s.bodyIndex .flowchart)),
      (Statement.ofLine p.2).Chooses (chosenMentions n).contains n.id p.1 ∧
        (Statement.ofLine p.2).Shields rebuild (chosenMentions n).contains p.1 := by
    intro p hp
    rw [hlength, ← body_eq_numbered] at hp
    have hst : (p.1, Statement.ofLine p.2) ∈ statements s := mem_statements.2 ⟨p.2, hp, rfl⟩
    exact ⟨h.chooses _ hst, h.shields _ hst⟩
  have hlines := redefineAll_lines s.trailingNewline h.rebuilds _ hsafe
  rw [hlength, ← body_eq_numbered, List.take_append_drop] at hlines
  rw [hfold]
  exact hlines

/-! ## The new source -/

section New

variable (hn : n ∈ (View.ofSource s).nodes)
  (h : IsRedefinable rebuild (chosenMentions n).contains n.id s)

include hn h

/-- Every mention that defines the node is one that was defined anew. -/
theorem exists_eq_redefine {p : Mention × NodeToken}
    (hp : p ∈ mentions (statements (redefinedSource rebuild (chosenMentions n).contains s)))
    (hid : p.2.id = n.id) (hdefines : p.2.definition.isSome = true) :
    ∃ t : NodeToken, p.2 = t.redefine rebuild := by
  obtain ⟨q, hq, hrecast⟩ := exists_of_forall₂ (recast_mentions_redefinedSource h) hp
  cases hchosen : (chosenMentions n).contains q.1 with
  | true => exact ⟨q.2, hrecast.token_of_chosen hchosen⟩
  | false =>
    -- A mention that is not defined anew has no definition.
    have htoken := hrecast.token_of_not_chosen hchosen
    obtain ⟨r, hr, hin⟩ := View.mem_mentions.1 hq
    have hq' : q.1.defines = true := by
      rw [(View.line_defines_of_mem_mentions hin).2, ← htoken]
      exact hdefines
    have hmem : q.1 ∈ n.mentions :=
      (View.mem_mentions_of_node hn).2 ⟨q.2, hq, by rw [← htoken]; exact hid⟩
    rw [← Bool.not_eq_true, List.contains_iff_mem] at hchosen
    exact absurd (mem_chosenMentions_of_defines hmem hq') hchosen

/-- Some mention in the new source defines the node. -/
theorem exists_defining : ∃ m' t',
    (m', t') ∈ mentions (statements (redefinedSource rebuild (chosenMentions n).contains s)) ∧
      t'.id = n.id ∧ m'.defines = true ∧ t'.definition.isSome = true := by
  obtain ⟨m, hm⟩ := exists_mem_chosenMentions hn
  obtain ⟨t, ht, htid⟩ :=
    (View.mem_mentions_of_node hn).1 ((chosenMentions_sublist n).subset hm)
  obtain ⟨⟨m', t'⟩, hp', hrecast⟩ :=
    exists_of_forall₂_left (recast_mentions_redefinedSource h) ht
  have htoken : t' = t.redefine rebuild := hrecast.token_of_chosen (List.contains_iff_mem.2 hm)
  have hsome : t'.definition.isSome = true := by
    rw [htoken]
    rfl
  exact ⟨m', t', hp', hrecast.id_eq.trans htid, hrecast.defines.trans hsome, hsome⟩

/-- The node is defined in the new source, by one of the new definitions. -/
theorem exists_definition_eq
    (hn' : n' ∈ (View.ofSource (redefinedSource rebuild (chosenMentions n).contains s)).nodes)
    (hid : n'.id = n.id) : ∃ d, n'.definition = some (rebuild d) := by
  obtain ⟨m, t, hp, htid, -, hsome⟩ := exists_defining hn h
  obtain ⟨e, he⟩ := Option.isSome_iff_exists.1 hsome
  have hmem := View.mem_definitionsOf.2 ⟨m, t, hp, htid.trans hid.symm, he⟩
  obtain ⟨d, hd⟩ := Option.isSome_iff_exists.1 (View.isSome_richest.2 (List.ne_nil_of_mem hmem))
  obtain ⟨m', t', hp', hid', hdef⟩ := View.mem_definitionsOf.1 (View.mem_of_richest hd)
  obtain ⟨u, rfl⟩ : ∃ u : NodeToken, t' = u.redefine rebuild :=
    exists_eq_redefine hn h hp' (hid'.trans hid) (by rw [hdef]; rfl)
  refine ⟨u.definition, ?_⟩
  rw [View.definition_eq hn', hd, ← hdef]
  rfl

/-- The same once more changes nothing. -/
theorem foldlM_redefinedMentions_self (hidem : ∀ d, rebuild (some (rebuild d)) = rebuild d)
    (hn' : n' ∈ (View.ofSource (redefinedSource rebuild (chosenMentions n).contains s)).nodes)
    (hid : n'.id = n.id) : (redefinedMentions n').foldlM (redefineMention n.id rebuild)
      (redefinedSource rebuild (chosenMentions n).contains s) =
      .ok (redefinedSource rebuild (chosenMentions n).contains s) := by
  have hself : ∀ m ∈ redefinedMentions n', redefineMention n.id rebuild
      (redefinedSource rebuild (chosenMentions n).contains s) m =
      .ok (redefinedSource rebuild (chosenMentions n).contains s) := by
    intro m hm
    rw [redefinedMentions_eq hn', List.mem_reverse] at hm
    obtain ⟨t, ht, htid⟩ :=
      (View.mem_mentions_of_node hn').1 ((chosenMentions_sublist n').subset hm)
    obtain ⟨m₀, t₀, hp₀, hid₀, hdefines₀, -⟩ := exists_defining hn h
    have hmem₀ : m₀ ∈ n'.mentions :=
      (View.mem_mentions_of_node hn').2 ⟨t₀, hp₀, hid₀.trans hid.symm⟩
    have hdefines := defines_of_mem_chosenMentions hm hmem₀ hdefines₀
    obtain ⟨p, hp, hin⟩ := View.mem_mentions.1 ht
    rw [(View.line_defines_of_mem_mentions hin).2] at hdefines
    obtain ⟨u, rfl⟩ : ∃ u : NodeToken, t = u.redefine rebuild :=
      exists_eq_redefine hn h ht (htid.trans hid) hdefines
    refine redefineMention_self ht (htid.trans hid) ?_
    simp only [NodeToken.redefine, hidem]
  generalize redefinedMentions n' = ms at hself
  induction ms with
  | nil => rfl
  | cons m ms ih =>
    rw [List.foldlM_cons, hself m List.mem_cons_self]
    exact ih fun m hm => hself m (List.mem_cons_of_mem _ hm)

end New

/-! ## Labels and shapes -/

/-- How a mention is defined anew when the node gets another label. -/
def relabeled (label : Text) : Option NodeDefinition → NodeDefinition
  | some d => d.withLabel label
  | none => .classic .rect label

/-- How a mention is defined anew when the node gets another shape. -/
def reshaped (shape : NodeShape) (label : Text) (_ : Option NodeDefinition) : NodeDefinition :=
  .classic shape label

theorem editLabel_eq (id label : Text) (s : Source) :
    editLabel id label s = redefine id (relabeled label) s :=
  rfl

theorem setNodeShape_eq (hn : (View.ofSource s).node? id = some n) (shape : NodeShape) :
    setNodeShape id shape s = redefine id (reshaped shape n.label) s := by
  rw [setNodeShape, requireNode, hn]
  rfl

theorem rebuilds_relabeled (h : ¬quoteEntity <:+: label) :
    NodeDefinition.Rebuilds (relabeled label) := by
  intro text d rest hscan
  cases d with
  | none => exact NodeDefinition.isFaithful_classic (unquote_quote h) .rect
  | some d => exact NodeDefinition.isFaithful_withLabel (unquote_quote h) hscan

theorem rebuilds_reshaped (h : ¬quoteEntity <:+: label) (shape : NodeShape) :
    NodeDefinition.Rebuilds (reshaped shape label) :=
  fun _ _ _ _ => NodeDefinition.isFaithful_classic (unquote_quote h) shape

theorem label_relabeled (label : Text) (d : Option NodeDefinition) :
    (relabeled label d).label = some label := by
  cases d with
  | none => rfl
  | some d => cases hform : d.form <;> simp [relabeled, NodeDefinition.withLabel, hform,
      NodeDefinition.classic]

/-- A label that was read has no entity left in it. -/
theorem not_infix_label (hn : n ∈ (View.ofSource s).nodes) : ¬quoteEntity <:+: n.label := by
  obtain ⟨hident, hscanned⟩ := areScanned_nodes s n hn
  have hid : ¬quoteEntity <:+: n.id := by
    intro h
    exact absurd (hident.2 '#' (h.subset (by decide))) (by decide)
  rw [NodeRecord.label]
  cases hdef : n.definition with
  | none => exact hid
  | some d =>
    obtain ⟨text, token, rest, hscan, htoken⟩ := hscanned d hdef
    obtain ⟨-, _, hparts⟩ := NodeToken.scan?_eq_some_iff_isToken.1 hscan
    have hread := hparts.definition
    rw [htoken] at hread
    obtain ⟨body, -, -, rfl⟩ | ⟨shape, raw, -, -, rfl⟩ := NodeToken.scanDefinition?_eq_some hread
    · rw [NodeDefinition.ofEntries_eq, NodeDefinition.advanced, Option.bind_some]
      cases List.lookup NodeDefinition.labelKey _ with
      | none => exact hid
      | some raw => exact not_infix_unquote raw
    · exact not_infix_unquote raw

/-! ## What the edit leaves alone -/

/-- Only the definition of the node differs, and only lines that mention it. -/
structure IsRelabeled (n : NodeRecord) (s s' : Source) : Prop where
  view : (View.ofSource s).IsRedefined n.id (View.ofSource s')
  classSuffixes : (mentionsOf n.id (mentions (statements s'))).map (·.2.classSuffix) =
    (mentionsOf n.id (mentions (statements s))).map (·.2.classSuffix)
  lines : ∀ i, s'.line? i ≠ s.line? i → ∃ m ∈ n.mentions, m.line = i
  length : s'.length = s.length
  trailingNewline : s'.trailingNewline = s.trailingNewline
  balance : s'.checkBalance blockRules = s.checkBalance blockRules

theorem map_classSuffix_mentionsOf {ms ms' : List (Mention × NodeToken)}
    (h : List.Forall₂ (Recast rebuild chosen) ms ms') (id : Text) :
    (mentionsOf id ms').map (·.2.classSuffix) = (mentionsOf id ms).map (·.2.classSuffix) := by
  induction h with
  | nil => rfl
  | @cons p p' ms ms' hp _ ih =>
    rw [mentionsOf, mentionsOf] at ih ⊢
    rw [List.filter_cons, List.filter_cons, hp.id_eq]
    split
    · rw [List.map_cons, List.map_cons, ih, hp.classSuffix_eq]
    · exact ih

theorem isRelabeled_redefinedSource
    (h : IsRedefinable rebuild (chosenMentions n).contains n.id s) :
    IsRelabeled n s (redefinedSource rebuild (chosenMentions n).contains s) where
  view := View.isRedefined_ofSource h
  classSuffixes := map_classSuffix_mentionsOf (recast_mentions_redefinedSource h) n.id
  lines := by
    intro i hne
    by_contra hno
    refine hne (getElem?_redefinedSource i fun p _ hline => ?_)
    rw [← Bool.not_eq_true, List.contains_iff_mem]
    exact fun hchosen => hno ⟨p.1, (chosenMentions_sublist n).subset hchosen, hline⟩
  length := length_redefinedSource h
  trailingNewline := rfl
  balance := checkBalance_redefinedSource h

/-- Defining the node anew succeeds where it is safe. -/
theorem redefine_eq (hn : (View.ofSource s).node? id = some n)
    (h : IsRedefinable rebuild (chosenMentions n).contains id s) : redefine id rebuild s =
      .ok ⟨redefinedSource rebuild (chosenMentions n).contains s, some (.node id)⟩ := by
  obtain ⟨hmem, rfl⟩ := View.node?_eq_some_iff.1 hn
  rw [redefine, requireNode, hn]
  simp only [bind, Except.bind, foldlM_redefinedMentions hmem h]
  rfl

/-- Defining the node anew succeeds, leaves everything else alone, and is stable. -/
theorem redefine_isRelabeled (hn : (View.ofSource s).node? id = some n)
    (hr : NodeDefinition.Rebuilds rebuild) (hidem : ∀ d, rebuild (some (rebuild d)) = rebuild d)
    (hshielded : IsShielded rebuild n s) :
    ∃ s' n' d, IsRelabeled n s s' ∧ (View.ofSource s').node? id = some n' ∧
      n'.definition = some (rebuild d) ∧ redefine id rebuild s = .ok ⟨s', some (.node id)⟩ ∧
      redefine id rebuild s' = .ok ⟨s', some (.node id)⟩ := by
  obtain ⟨hmem, rfl⟩ := View.node?_eq_some_iff.1 hn
  have h := isRedefinable hmem hr hshielded
  obtain ⟨n', hn', hsame⟩ := (View.isRedefined_ofSource h).exists_node? hn
  have hmem' := (View.node?_eq_some_iff.1 hn').1
  obtain ⟨d, hd⟩ := exists_definition_eq hmem h hmem' hsame.id_eq
  refine ⟨_, n', d, isRelabeled_redefinedSource h, hn', hd, redefine_eq hn h, ?_⟩
  rw [redefine, requireNode, hn']
  simp only [bind, Except.bind, foldlM_redefinedMentions_self hmem h hidem hmem' hsame.id_eq]
  rfl

/-- An edit that leaves its own result alone does the same again and again. -/
theorem applyOps_replicate {op : Op} {handle : Handle}
    (hop : ∀ ids, applyOp .flowchart op s ids = (.ok ⟨s', some handle⟩, ids))
    (hop' : ∀ ids, applyOp .flowchart op s' ids = (.ok ⟨s', some handle⟩, ids))
    (hbalance : s'.checkBalance blockRules = s.checkBalance blockRules) (k : Nat)
    (earlier : Option Handle) (ids : IdAllocator) :
    applyOps .flowchart (List.replicate (k + 1) op) ⟨s, earlier⟩ ids =
      (.ok ⟨s', some handle⟩, ids) := by
  rw [List.replicate_succ, applyOps_cons_of_eq (hop ids) hbalance]
  induction k generalizing s earlier with
  | zero => rfl
  | succ k ih =>
    rw [List.replicate_succ, applyOps_cons_of_eq (hop' ids) rfl]
    exact ih hop' rfl _

/-- Another label or shape for a node succeeds, changes the definition of this node and nothing else,
and changes nothing when it is applied again, as often as one likes. Nodes that are the target of a
link must not close a label that the source of the link leaves open. Without line breaks in the label
the new lines are those of their text. -/
theorem applyOps_isRelabeled (hn : (View.ofSource s).node? id = some n) :
    (∀ label, ¬quoteEntity <:+: label → IsShielded (relabeled label) n s →
      ∃ s' n', IsRelabeled n s s' ∧ (View.ofSource s').node? id = some n' ∧ n'.label = label ∧
        (s.IsFlat → Text.IsFlat label → s'.IsFlat) ∧
        ∀ k ids, applyOps .flowchart (List.replicate (k + 1) (.flowchart (.editLabel id label)))
          ⟨s, none⟩ ids = (.ok ⟨s', some (.node id)⟩, ids)) ∧
    (∀ shape, IsShielded (reshaped shape n.label) n s →
      ∃ s' n', IsRelabeled n s s' ∧ (View.ofSource s').node? id = some n' ∧ n'.label = n.label ∧
        n'.definition = some (.classic shape n.label) ∧ (s.IsFlat → s'.IsFlat) ∧
        ∀ k ids, applyOps .flowchart (List.replicate (k + 1) (.flowchart (.setNodeShape id shape)))
          ⟨s, none⟩ ids = (.ok ⟨s', some (.node id)⟩, ids)) := by
  constructor
  · intro label hlabel hshielded
    have hidem : ∀ d, relabeled label (some (relabeled label d)) = relabeled label d := by
      intro d
      cases d with
      | none => rfl
      | some d => exact NodeDefinition.withLabel_withLabel label d
    obtain ⟨s', n', d, hsame, hn', hdef, hok, hok'⟩ :=
      redefine_isRelabeled hn (rebuilds_relabeled hlabel) hidem hshielded
    refine ⟨s', n', hsame, hn', ?_, fun hs hl => ?_, fun k ids => ?_⟩
    · rw [NodeRecord.label, hdef, Option.bind_some, label_relabeled]
      rfl
    · exact editLabel_isFlat hs hl _ hok
    · refine applyOps_replicate (fun ids => ?_) (fun ids => ?_) hsame.balance k none ids
      · rw [applyOp, apply, editLabel_eq, hok]
      · rw [applyOp, apply, editLabel_eq, hok']
  · intro shape hshielded
    obtain ⟨s', n', d, hsame, hn', hdef, hok, hok'⟩ := redefine_isRelabeled hn
      (rebuilds_reshaped (not_infix_label (View.node?_eq_some_iff.1 hn).1) shape) (fun _ => rfl)
      hshielded
    have hlabel : n'.label = n.label := by
      rw [NodeRecord.label, hdef]
      rfl
    refine ⟨s', n', hsame, hn', hlabel, hdef, fun hs => ?_, fun k ids => ?_⟩
    · exact setNodeShape_isFlat hs shape _ ((setNodeShape_eq hn shape).trans hok)
    · refine applyOps_replicate (fun ids => ?_) (fun ids => ?_) hsame.balance k none ids
      · rw [applyOp, apply, setNodeShape_eq hn, hok]
      · rw [applyOp, apply, setNodeShape_eq hn', hlabel, hok']

instance (target : Text) : Decidable (l.Shields target) :=
  inferInstanceAs (Decidable (_ → _))

instance : Decidable (IsShielded rebuild n s) :=
  inferInstanceAs (Decidable (∀ r ∈ (View.ofSource s).links, _ → _))

/-- A node with a class name, twice on one line and defined in two ways. -/
theorem applyOps_isRelabeled_twice :
    let s : Source := .ofText
      "flowchart TD\nA(\"x\"):::c -- t --> A\nB[\"(\"] --> A@\x7b shape: rect \x7d\nend".toList
    ∃ n, (View.ofSource s).node? ['A'] = some n ∧ IsShielded (relabeled ['"', ')']) n s ∧
      ∃ s' n', IsRelabeled n s s' ∧ (View.ofSource s').node? ['A'] = some n' ∧
        n'.label = ['"', ')'] ∧ (s.IsFlat → Text.IsFlat ['"', ')'] → s'.IsFlat) ∧
        ∀ k ids, applyOps .flowchart
          (List.replicate (k + 1) (.flowchart (.editLabel ['A'] ['"', ')']))) ⟨s, none⟩ ids =
            (.ok ⟨s', some (.node ['A'])⟩, ids) := by
  intro s
  have hn : (View.ofSource s).node? ['A'] = some
      (((View.ofSource s).node? ['A']).get (by decide +kernel)) := by decide +kernel
  exact ⟨_, hn, by decide +kernel, (applyOps_isRelabeled hn).1 _ (by decide +kernel) (by decide +kernel)⟩

/-- The label of `B` closes a shape that `A` opens with a double quote in it, so the link is gone and
`B` with it. -/
theorem not_applyOps_isRelabeled :
    let s : Source := .ofText "flowchart TD\nA[(\"x] --> B".toList
    let s' : Source := .ofText "flowchart TD\nA[(\"x] --> B[\")]\"]".toList
    let op : Op := .flowchart (.editLabel ['B'] [')', ']'])
    (View.ofSource s).nodes.map (·.id) = [['A'], ['B']] ∧ ¬quoteEntity <:+: [')', ']'] ∧
      (applyOps .flowchart [op] ⟨s, none⟩ {}).1 = .ok ⟨s', some (.node ['B'])⟩ ∧
      ¬(View.ofSource s).IsRedefined ['B'] (View.ofSource s') ∧
      (applyOps .flowchart [op, op] ⟨s, none⟩ {}).1 = .error (.nodeNotFound ['B']) := by
  intro s s' op
  refine ⟨by decide +kernel, by decide +kernel, by decide +kernel, fun h => ?_, by decide +kernel⟩
  have hlength := h.links.length_eq
  exact absurd hlength (by decide +kernel)

end DiagramEditor.Edit.Flowchart
