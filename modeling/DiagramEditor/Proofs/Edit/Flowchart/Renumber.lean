import DiagramEditor.Proofs.Edit.Flowchart.Delete
import Mathlib.Data.List.Nodup

/-!
# New numbers for links

A deletion moves the links behind the deleted ones to the front, and `linkStyle` directives follow
them. The new number of a link is the old one without the deleted links below it (`renumber`), which
is its position among the links that stay (`renumber_eq_of_getElem?`), and different links get
different numbers (`renumber_lt`). So each link that stays is given the same properties in the same
order by the renumbered directives (`delete_keepsLinkStyles`).
-/

namespace DiagramEditor.Edit.Flowchart

open DiagramEditor.Flowchart Source Text

variable {targets : List Text} {extra removedIndices : List Nat} {s s' : Source} {i j k : Nat}

/-! ## Numbers -/

theorem length_filter_lt_succ (removed : List Nat) (i : Nat) :
    (removed.filter (· < i + 1)).length = (removed.filter (· < i)).length + removed.count i := by
  induction removed with
  | nil => rfl
  | cons a removed ih =>
    rw [List.count_cons, List.filter_cons, List.filter_cons]
    rcases Nat.lt_trichotomy a i with h | rfl | h
    · rw [if_pos (decide_eq_true (by omega)), if_pos (decide_eq_true h), if_neg (by simp; omega),
        List.length_cons, List.length_cons, ih]
      omega
    · rw [if_pos (decide_eq_true (by omega)), if_neg (by simp), if_pos (by simp),
        List.length_cons, ih]
      omega
    · rw [if_neg (by simp; omega), if_neg (by simp; omega), if_neg (by simp; omega), ih]
      omega

/-- There are no more deleted links below a number than numbers. -/
theorem length_filter_lt_le {removed : List Nat} (h : removed.Nodup) (i : Nat) :
    (removed.filter (· < i)).length ≤ i := by
  induction i with
  | zero => simp
  | succ i ih =>
    have := List.nodup_iff_count_le_one.1 h i
    rw [length_filter_lt_succ]
    omega

/-- The deleted links below the number and the new number make up the old one. -/
theorem renumber_add {removed : List Nat} (h : removed.Nodup) (i : Nat) :
    renumber removed i + (removed.filter (· < i)).length = i :=
  Nat.sub_add_cancel (length_filter_lt_le h i)

/-- Renumbering keeps the order of the links that stay. -/
theorem renumber_lt {removed : List Nat} (h : removed.Nodup) (hi : i ∉ removed) (hij : i < j) :
    renumber removed i < renumber removed j := by
  have hsteps : ∀ n, (removed.filter (· < i + 1 + n)).length ≤
      (removed.filter (· < i)).length + n := by
    intro n
    induction n with
    | zero =>
      rw [Nat.add_zero, length_filter_lt_succ, List.count_eq_zero_of_not_mem hi]
    | succ n ih =>
      have := List.nodup_iff_count_le_one.1 h (i + 1 + n)
      rw [← Nat.add_assoc, length_filter_lt_succ]
      omega
  have hi' := renumber_add h i
  have hj' := renumber_add h j
  have hle := hsteps (j - (i + 1))
  rw [Nat.add_sub_cancel' hij] at hle
  omega

theorem renumber_inj {removed : List Nat} (h : removed.Nodup) (hi : i ∉ removed) (hj : j ∉ removed)
    (heq : renumber removed i = renumber removed j) : i = j := by
  rcases Nat.lt_trichotomy i j with hij | hij | hij
  · exact absurd heq (Nat.ne_of_lt (renumber_lt h hi hij))
  · exact hij
  · exact absurd heq.symm (Nat.ne_of_lt (renumber_lt h hj hij))

theorem renumber_le (removed : List Nat) (i : Nat) : renumber removed i ≤ i :=
  Nat.sub_le ..

/-- A position is kept exactly where the old one was named. -/
theorem mem_keptPositions {removed : List Nat} (h : removed.Nodup) (hi : i ∉ removed)
    (positions : List Nat) :
    renumber removed i ∈ keptPositions removed positions ↔ i ∈ positions := by
  simp only [keptPositions, List.mem_map, List.mem_filter, Bool.not_eq_true', ← Bool.not_eq_true,
    List.contains_iff_mem]
  constructor
  · rintro ⟨j, ⟨hj, hstay⟩, heq⟩
    rwa [← renumber_inj h hstay hi heq]
  · exact fun hmem => ⟨i, ⟨hmem, hi⟩, rfl⟩

/-! ## Links -/

theorem exists_getElem?_of_filter {α : Type} {p : α → Bool} {l : List α} {a : α}
    (h : (l.filter p)[k]? = some a) :
    ∃ j, l[j]? = some a ∧ p a = true ∧ ((l.take j).filter p).length = k := by
  induction l generalizing k with
  | nil => simp at h
  | cons b l ih =>
    cases hb : p b with
    | true =>
      rw [List.filter_cons_of_pos hb] at h
      cases k with
      | zero =>
        obtain rfl : b = a := by simpa using h
        exact ⟨0, rfl, hb, rfl⟩
      | succ k =>
        obtain ⟨j, hj, hp, hlength⟩ := ih (by simpa using h)
        refine ⟨j + 1, by simpa using hj, hp, ?_⟩
        rw [List.take_succ_cons, List.filter_cons_of_pos hb, List.length_cons, hlength]
    | false =>
      rw [List.filter_cons_of_neg (by simp [hb])] at h
      obtain ⟨j, hj, hp, hlength⟩ := ih h
      refine ⟨j + 1, by simpa using hj, hp, ?_⟩
      rw [List.take_succ_cons, List.filter_cons_of_neg (by simp [hb]), hlength]

/-- The positions of the links that go. -/
def gonePositions (gone : LinkRecord → Bool) (v : View) : List Nat :=
  (v.links.filter gone).map (·.index)

theorem map_index_links (s : Source) :
    (View.ofSource s).links.map (·.index) = List.range (View.ofSource s).links.length := by
  refine List.ext_getElem? fun k => ?_
  rw [List.getElem?_map]
  cases hk : (View.ofSource s).links[k]? with
  | none => rw [List.getElem?_eq_none_iff.2 (by simpa using List.getElem?_eq_none_iff.1 hk)]; rfl
  | some r =>
    have hlt := (List.getElem?_eq_some_iff.1 hk).1
    rw [Option.map_some, View.index_of_getElem?_links hk, List.getElem?_range hlt]

theorem nodup_gonePositions (gone : LinkRecord → Bool) (s : Source) :
    (gonePositions gone (View.ofSource s)).Nodup := by
  have hnodup : ((View.ofSource s).links.map (·.index)).Nodup := by
    rw [map_index_links]
    exact List.nodup_range
  exact hnodup.sublist (List.filter_sublist.map _)

theorem not_mem_gonePositions {gone : LinkRecord → Bool} {r : LinkRecord}
    (hr : r ∈ (View.ofSource s).links) (hstay : gone r = false) :
    r.index ∉ gonePositions gone (View.ofSource s) := by
  intro hmem
  obtain ⟨r', hr', heq⟩ := List.mem_map.1 hmem
  obtain ⟨hr', hgone⟩ := List.mem_filter.1 hr'
  obtain ⟨k, hk⟩ := List.getElem?_of_mem hr
  obtain ⟨j, hj⟩ := List.getElem?_of_mem hr'
  rw [View.index_of_getElem?_links hk, View.index_of_getElem?_links hj] at heq
  rw [heq, hk, Option.some.injEq] at hj
  rw [← hj, hstay] at hgone
  cases hgone

/-- The links with a lower number are those in front. -/
theorem filter_index_lt (s : Source) (j : Nat) :
    ((View.ofSource s).links.filter fun r => r.index < j) = (View.ofSource s).links.take j := by
  have hfront : ((View.ofSource s).links.take j).filter (fun r => r.index < j) =
      (View.ofSource s).links.take j := by
    refine List.filter_eq_self.2 fun r hr => ?_
    obtain ⟨k, hk⟩ := List.getElem?_of_mem hr
    rw [List.getElem?_take, Option.ite_none_right_eq_some] at hk
    rw [View.index_of_getElem?_links hk.2]
    exact decide_eq_true hk.1
  have hback : ((View.ofSource s).links.drop j).filter (fun r => r.index < j) = [] := by
    refine List.filter_eq_nil_iff.2 fun r hr => ?_
    obtain ⟨k, hk⟩ := List.getElem?_of_mem hr
    rw [List.getElem?_drop] at hk
    rw [View.index_of_getElem?_links hk]
    simp
  conv_lhs => rw [← List.take_append_drop j (View.ofSource s).links]
  rw [List.filter_append, hfront, hback, List.append_nil]

/-- The new number of a link is its position among the links that stay. -/
theorem renumber_eq_of_getElem? {gone : LinkRecord → Bool} {r : LinkRecord}
    (h : ((View.ofSource s).links.filter fun r => !gone r)[k]? = some r) :
    renumber (gonePositions gone (View.ofSource s)) r.index = k := by
  obtain ⟨j, hj, -, hlength⟩ := exists_getElem?_of_filter h
  have hindex := View.index_of_getElem?_links hj
  have hbelow : (gonePositions gone (View.ofSource s)).filter (· < j) =
      (((View.ofSource s).links.take j).filter gone).map (·.index) := by
    rw [gonePositions, List.filter_map, List.filter_filter, ← filter_index_lt, List.filter_filter]
    congr 1
    exact List.filter_congr fun r _ => Bool.and_comm ..
  have hsum := List.length_eq_length_filter_add (l := (View.ofSource s).links.take j) gone
  have hadd := renumber_add (nodup_gonePositions gone s) j
  have hlt := (List.getElem?_eq_some_iff.1 hj).1
  rw [hbelow, List.length_map] at hadd
  rw [List.length_take, Nat.min_eq_left (Nat.le_of_lt hlt)] at hsum
  rw [hindex]
  omega

/-! ## Directives -/

/-- The directive with the new positions, if any is left. -/
def renumbered (removed : List Nat) (d : LinkStyle) : Option LinkStyle :=
  match d.target with
  | .default => some d
  | .indices positions =>
    if keptPositions removed positions = [] then none
    else some ⟨.indices (keptPositions removed positions), d.properties⟩

theorem renumbered_indices (removed positions : List Nat) (properties : Properties) :
    renumbered removed ⟨.indices positions, properties⟩ =
      if keptPositions removed positions = [] then none
      else some ⟨.indices (keptPositions removed positions), properties⟩ := rfl

section Lines

variable {removal : Removal} {text : Text} {d : LinkStyle} (hextra : AreLinkLines extra s)
  (hplan : Removal.plan targets extra (View.ofSource s) s = .ok removal)
  (hline : (i, text) ∈ s.body .flowchart)

include hplan hline

/-- A line that is no `linkStyle` directive stays as it is or begins with another word. -/
theorem changedLine_of_not_linkStyle (hno : (Statement.ofLine text).linkStyle? = none) :
    changedLine removal.changes i text = text ∨
      ¬WordThenBlank LinkStyle.keyword (changedLine removal.changes i text) := by
  have hst : (i, Statement.ofLine text) ∈ statements s := mem_statements.2 ⟨text, hline, rfl⟩
  rcases changedLine_cases removal.changes i text with ⟨heq, -⟩ | hmem
  · exact .inl heq
  · refine .inr fun hword => ?_
    rcases mem_changes_cases hplan hmem with ⟨c, -, hfate⟩ | ⟨d, hd, -⟩
    · have := hword.unique (wordThenBlank_of_classFate (isBlank_indent _) hfate)
        (isIdent_of_mem_statementKeywords (by decide)) (isIdent_of_mem_statementKeywords (by decide))
      exact absurd this (by decide)
    · rw [eq_of_mem_statements hst hd] at hno
      cases hno

include hextra

/-- A `linkStyle` line changes by its fate. -/
theorem changedLine_of_linkStyle (hd : Statement.ofLine text = .linkStyle d) :
    changedLine removal.changes i text =
      ((linkStyleFate (removedLinks targets extra s) (indent (lineOf s i)) d).text?).getD text := by
  have hst : (i, Statement.linkStyle d) ∈ statements s := mem_statements.2 ⟨text, hline, hd.symm⟩
  rcases changedLine_cases removal.changes i text with ⟨heq, hno⟩ | hmem
  · cases hfate : linkStyleFate (removedLinks targets extra s) (indent (lineOf s i)) d with
    | change new => exact absurd rfl (hno _ (mem_changes_of_linkStyle hextra hplan hst hfate))
    | _ => exact heq
  · rcases mem_changes_cases hplan hmem with ⟨c, hc, -⟩ | ⟨d', hd', hfate⟩
    · cases eq_of_mem_statements hst hc
    · cases eq_of_mem_statements hst hd'
      rw [hfate]
      rfl

/-- A `linkStyle` line stays where its directive keeps a position, with this directive. -/
theorem ofLine_changedLine_of_linkStyle (hd : Statement.ofLine text = .linkStyle d)
    (hsemicolon : ∀ p ∈ d.properties, p.2.getLast? ≠ some ';') :
    (if removal.lines.contains i then none
      else (Statement.ofLine (changedLine removal.changes i text)).linkStyle?) =
    renumbered (removedLinks targets extra s) d := by
  have hst : (i, Statement.linkStyle d) ∈ statements s := mem_statements.2 ⟨text, hline, hd.symm⟩
  have hgone := mem_lines_of_linkStyle hextra hplan hst
  have hread : LinkStyle.ofLine? text = some d := by
    have := Statement.readsFrom_ofLine text
    rwa [hd] at this
  rw [changedLine_of_linkStyle hextra hplan hline hd]
  obtain ⟨target, properties⟩ := d
  cases target with
  | default =>
    have hstay : i ∉ removal.lines := fun hi => nomatch hgone.1 hi
    rw [if_neg (by simpa using hstay)]
    exact congrArg Statement.linkStyle? hd
  | indices positions =>
    rw [linkStyleFate_indices] at hgone ⊢
    rw [renumbered_indices]
    by_cases hnil : keptPositions (removedLinks targets extra s) positions = []
    · rw [if_pos (by simpa using hgone.2 (if_pos hnil)), if_pos hnil]
    · rw [if_neg hnil] at hgone ⊢
      by_cases hsame : keptPositions (removedLinks targets extra s) positions = positions
      · rw [if_pos hsame] at hgone ⊢
        have hstay : i ∉ removal.lines := fun hi => nomatch hgone.1 hi
        rw [if_neg (by simpa using hstay), if_neg hnil, hsame]
        exact congrArg Statement.linkStyle? hd
      · rw [if_neg hsame] at hgone ⊢
        have hstay : i ∉ removal.lines := fun hi => nomatch hgone.1 hi
        obtain ⟨raw, rfl⟩ := properties_of_ofLine? hread
        have hbound := (positions_of_ofLine? hread rfl).2
        rw [if_neg (by simpa using hstay), if_neg hnil, Fate.text?, Option.getD_some,
          ofLine_linkStyle_render (isBlank_indent _) hnil (fun n hn => ?_) hsemicolon]
        · rfl
        · obtain ⟨m, hm, rfl⟩ := List.mem_map.1 hn
          exact Nat.lt_of_le_of_lt (renumber_le ..) (hbound m (List.mem_filter.1 hm).1)

end Lines

/-! ## Properties of links -/

/-- The line gives properties to all other links. -/
def isDefaultLine (text : Text) : Bool :=
  (Statement.ofLine text).linkStyle?.any (·.target = .default)

/-- The lines that give properties to all other links, in order. -/
def defaultLines (s : Source) : List Text :=
  ((s.body .flowchart).map Prod.snd).filter isDefaultLine

/-- No value ends in a semicolon, which the end of a written line would swallow. -/
def NoFinalSemicolon (v : View) : Prop :=
  ∀ p ∈ v.linkStyles, ∀ q ∈ p.2.properties, q.2.getLast? ≠ some ';'

theorem linkStyle?_eq_none_of_not_word {text : Text} (h : ¬WordThenBlank LinkStyle.keyword text) :
    (Statement.ofLine text).linkStyle? = none := by
  have hread := Statement.readsFrom_ofLine text
  cases hst : Statement.ofLine text with
  | linkStyle d =>
    rw [hst] at hread
    exact absurd (wordThenBlank_of_linkStyle hread) h
  | _ => rfl

theorem NoFinalSemicolon.properties (h : NoFinalSemicolon (View.ofSource s)) {text : Text}
    {d : LinkStyle} (hline : (i, text) ∈ s.body .flowchart)
    (hd : Statement.ofLine text = .linkStyle d) : ∀ q ∈ d.properties, q.2.getLast? ≠ some ';' := by
  refine h (i, d) ?_
  rw [View.linkStyles_ofSource]
  exact mem_found.2 ⟨_, mem_statements.2 ⟨text, hline, hd.symm⟩, rfl⟩

theorem filterMap_renumbered {removed : List Nat} (h : removed.Nodup) (hi : i ∉ removed)
    (ds : List LinkStyle) :
    ((ds.filterMap (renumbered removed)).filter fun d =>
        d.target.positions.contains (renumber removed i)).map (·.properties) =
      (ds.filter fun d => d.target.positions.contains i).map (·.properties) := by
  induction ds with
  | nil => rfl
  | cons d ds ih =>
    obtain ⟨target, properties⟩ := d
    cases target with
    | default => simpa [renumbered, LinkTarget.positions] using ih
    | indices positions =>
      have hmem := mem_keptPositions h hi positions
      rw [List.filterMap_cons, renumbered_indices]
      by_cases hnil : keptPositions removed positions = []
      · rw [hnil] at hmem
        have hno : i ∉ positions := fun hin => absurd (hmem.2 hin) List.not_mem_nil
        rw [if_pos hnil, ih, List.filter_cons_of_neg (by simpa [LinkTarget.positions] using hno)]
      · rw [if_neg hnil]
        by_cases hin : i ∈ positions
        · rw [List.filter_cons_of_pos (by simpa [LinkTarget.positions] using hmem.2 hin),
            List.filter_cons_of_pos (by simpa [LinkTarget.positions] using hin), List.map_cons,
            List.map_cons, ih]
        · rw [List.filter_cons_of_neg (by simpa [LinkTarget.positions] using mt hmem.1 hin),
            List.filter_cons_of_neg (by simpa [LinkTarget.positions] using hin), ih]

namespace Cascade

variable {removal : Removal} {removed : Source} {w : Text} {gone : LinkRecord → Bool}
  (hextra : AreLinkLines extra s) (h : Cascade targets extra removal removed w s s')

include hextra h

theorem removedLinks_eq
    (hgone : ∀ r ∈ (View.ofSource s).links, gone r = true ↔ Goes targets extra r.line r.link) :
    removedLinks targets extra s = gonePositions gone (View.ofSource s) := by
  rw [removedLinks, gonePositions]
  congr 1
  refine List.filter_congr fun r hr => ?_
  have hlink := View.mem_links hr
  rw [Bool.eq_iff_iff, List.contains_iff_mem, hgone r hr,
    ← mem_lines_of_link hextra h.plan hlink, mem_lines_iff hextra h.plan, mem_firstLines_iff]
  constructor
  · rintro (hi | hi | hi)
    exacts [.inl hi, .inr (.inl hi), .inr (.inr (.inl hi))]
  · rintro (hi | hi | hi | ⟨d, hd, -⟩)
    · exact .inl hi
    · exact .inr (.inl hi)
    · exact .inr (.inr hi)
    · cases eq_of_mem_statements hlink hd

/-- The directives that are left are the old ones, renumbered. -/
theorem linkStyles (hsemicolon : NoFinalSemicolon (View.ofSource s)) :
    (View.ofSource s').linkStyles.map Prod.snd = ((View.ofSource s).linkStyles.map Prod.snd).filterMap
      (renumbered (removedLinks targets extra s)) := by
  have hbody : ∀ t : Source, (View.ofSource t).linkStyles.map Prod.snd =
      ((t.body .flowchart).map Prod.snd).filterMap fun text => (Statement.ofLine text).linkStyle? := by
    intro t
    rw [View.linkStyles_ofSource, map_snd_found, statements, List.map_map, List.filterMap_map,
      List.filterMap_map]
    rfl
  rw [hbody, hbody, h.filterMap_body (fun text n heq => by rw [heq]; rfl)
    (fun text heq => by rw [heq]; rfl) (fun text heq => by rw [heq]; rfl), filterMap_keptBody,
    List.filterMap_filterMap, List.filterMap_map]
  refine List.filterMap_congr fun p hp => ?_
  rw [Function.comp_apply]
  cases hd : (Statement.ofLine p.2).linkStyle? with
  | some d =>
    have hd := Statement.eq_of_linkStyle? hd
    exact ofLine_changedLine_of_linkStyle hextra h.plan hp hd (hsemicolon.properties hp hd)
  | none =>
    have hread : (Statement.ofLine (changedLine removal.changes p.1 p.2)).linkStyle? = none := by
      rcases changedLine_of_not_linkStyle h.plan hp hd with heq | hword
      · rw [heq, hd]
      · exact linkStyle?_eq_none_of_not_word hword
    rw [hread, ite_self]
    rfl

theorem defaultLines (hsemicolon : NoFinalSemicolon (View.ofSource s)) :
    defaultLines s' = defaultLines s := by
  rw [Flowchart.defaultLines, Flowchart.defaultLines, ← List.filterMap_eq_filter,
    h.filterMap_body, filterMap_keptBody, List.filterMap_map]
  · refine List.filterMap_congr fun p hp => ?_
    rw [Function.comp_apply]
    cases hd : (Statement.ofLine p.2).linkStyle? with
    | some d =>
      have hd := Statement.eq_of_linkStyle? hd
      have hread := ofLine_changedLine_of_linkStyle hextra h.plan hp hd (hsemicolon.properties hp hd)
      have hline := changedLine_of_linkStyle hextra h.plan hp hd
      obtain ⟨target, properties⟩ := d
      cases target with
      | default =>
        have hstay : removal.lines.contains p.1 = false := by
          rw [← Bool.not_eq_true]
          intro hgone
          rw [if_pos hgone] at hread
          cases hread
        have hsame : changedLine removal.changes p.1 p.2 = p.2 := hline
        rw [hstay, hsame]
        rfl
      | indices positions =>
        rw [renumbered_indices] at hread
        have hno : isDefaultLine p.2 = false := by simp [isDefaultLine, hd, Statement.linkStyle?]
        split
        · simp [Option.guard, hno]
        · next hstay =>
          rw [if_neg hstay] at hread
          have hno' : isDefaultLine (changedLine removal.changes p.1 p.2) = false := by
            rw [isDefaultLine, hread]
            split <;> simp
          simp [Option.guard, hno, hno']
    | none =>
      have hread : (Statement.ofLine (changedLine removal.changes p.1 p.2)).linkStyle? = none := by
        rcases changedLine_of_not_linkStyle h.plan hp hd with heq | hword
        · rw [heq, hd]
        · exact linkStyle?_eq_none_of_not_word hword
      simp [Option.guard, isDefaultLine, hread, hd]
  · intro text n heq
    simp [Option.guard, isDefaultLine, heq, Statement.linkStyle?]
  · intro text heq
    simp [Option.guard, isDefaultLine, heq, Statement.linkStyle?]
  · intro text heq
    simp [Option.guard, isDefaultLine, heq, Statement.linkStyle?]

/-- A `linkStyle` line is an old line, or it was written for some positions. -/
theorem linkStyle_line (hsemicolon : NoFinalSemicolon (View.ofSource s)) {text : Text}
    (hline : (i, text) ∈ s'.body .flowchart) (hword : WordThenBlank LinkStyle.keyword text) :
    (∃ j, (j, text) ∈ s.body .flowchart) ∨ ∃ positions properties, positions ≠ [] ∧
      Statement.ofLine text = .linkStyle ⟨.indices positions, properties⟩ := by
  rcases h.mem_body hline with hmem | ⟨v, id, hv, hid, -, rfl | ⟨d, heq⟩⟩
  · obtain ⟨p, hp, rfl⟩ := List.mem_map.1 hmem
    obtain ⟨hp, hstay⟩ := List.mem_filter.1 hp
    rw [Bool.not_eq_true'] at hstay
    cases hd : (Statement.ofLine p.2).linkStyle? with
    | none =>
      rcases changedLine_of_not_linkStyle h.plan hp hd with heq | hno
      · rw [heq]
        exact .inl ⟨p.1, hp⟩
      · exact absurd hword hno
    | some d =>
      have hd := Statement.eq_of_linkStyle? hd
      have hread := ofLine_changedLine_of_linkStyle hextra h.plan hp hd (hsemicolon.properties hp hd)
      have hline := changedLine_of_linkStyle hextra h.plan hp hd
      have hgone := mem_lines_of_linkStyle hextra h.plan (mem_statements.2 ⟨p.2, hp, hd.symm⟩)
      obtain ⟨target, properties⟩ := d
      cases target with
      | default =>
        have hsame : changedLine removal.changes p.1 p.2 = p.2 := hline
        rw [hsame]
        exact .inl ⟨p.1, hp⟩
      | indices positions =>
        rw [renumbered_indices, hstay, if_neg Bool.false_ne_true] at hread
        rw [linkStyleFate_indices] at hgone
        by_cases hnil : keptPositions (removedLinks targets extra s) positions = []
        · rw [if_pos hnil, ← List.contains_iff_mem, hstay] at hgone
          exact absurd (hgone.2 rfl) Bool.false_ne_true
        · rw [if_neg hnil] at hread
          exact .inr ⟨_, _, hnil, Statement.eq_of_linkStyle? hread⟩
  · have hstart : trimStart (v ++ id) = id ++ [] := by
      rw [hid.trimStart_blank_append hv, List.append_nil]
    exact absurd hword (not_wordThenBlank_of_ident hid hstart (by simp) (by decide))
  · have := isDirective_ofLine hword (by decide)
    rw [heq] at this
    cases this

end Cascade

/-! ## Deletions -/

/-- The links that stay keep their properties, where `gone` says which links go. -/
structure KeepsLinkStyles (gone : LinkRecord → Bool) (s s' : Source) : Prop where
  /-- The links that stay, in order. -/
  links : (View.ofSource s').links.map (·.link) =
    ((View.ofSource s).links.filter fun r => !gone r).map (·.link)
  /-- The directives give the link number `k` what they gave it at its old number. -/
  properties : ∀ (k : Nat) (r : LinkRecord),
    ((View.ofSource s).links.filter fun r => !gone r)[k]? = some r →
      (View.ofSource s').propertiesAt k = (View.ofSource s).propertiesAt r.index
  /-- The lines for all other links are the old ones. -/
  default : defaultLines s' = defaultLines s
  /-- A line with the word of the directive is an old one, or names some positions. -/
  line : ∀ i text, (i, text) ∈ s'.body .flowchart → WordThenBlank LinkStyle.keyword text →
    (∃ j, (j, text) ∈ s.body .flowchart) ∨ ∃ positions properties, positions ≠ [] ∧
      Statement.ofLine text = .linkStyle ⟨.indices positions, properties⟩
  target_ne : ∀ p ∈ (View.ofSource s').linkStyles, p.2.target ≠ .indices []
  /-- Nothing is cut off where a position is renumbered. -/
  renumber_add : ∀ i, renumber (gonePositions gone (View.ofSource s)) i +
    ((gonePositions gone (View.ofSource s)).filter (· < i)).length = i

theorem target_ne_indices_nil {p : Nat × LinkStyle} (h : p ∈ (View.ofSource s).linkStyles) :
    p.2.target ≠ .indices [] := by
  intro htarget
  rw [View.linkStyles_ofSource] at h
  obtain ⟨st, hst, hd⟩ := mem_found.1 h
  obtain ⟨text, -, heq⟩ := mem_statements.1 hst
  have hread := Statement.readsFrom_ofLine text
  rw [← heq, Statement.eq_of_linkStyle? hd] at hread
  exact (positions_of_ofLine? hread htarget).1 rfl

theorem IsDeletion.keepsLinkStyles {gone : LinkRecord → Bool}
    (h : IsDeletion gone targets extra s s') (hkind : s.kind? = some .flowchart)
    (hsemicolon : NoFinalSemicolon (View.ofSource s)) : KeepsLinkStyles gone s s' := by
  obtain ⟨hextra, hgone, hok⟩ := h
  obtain ⟨removal, removed, w, h⟩ := exists_cascade hkind hextra hok
  have hnodup := nodup_gonePositions gone s
  refine ⟨h.map_link_links hextra hgone, fun k r hr => ?_, h.defaultLines hextra hsemicolon,
    fun i text => h.linkStyle_line hextra hsemicolon, fun p => target_ne_indices_nil,
    renumber_add hnodup⟩
  have hproperties : ∀ (v : View) (i : Nat), v.propertiesAt i =
      ((v.linkStyles.map Prod.snd).filter fun d => d.target.positions.contains i).map
        (·.properties) := by
    intro v i
    rw [List.filter_map, List.map_map]
    rfl
  obtain ⟨hmem, hstay⟩ := List.mem_filter.1 (List.mem_of_getElem? hr)
  rw [Bool.not_eq_true'] at hstay
  rw [hproperties, hproperties, h.linkStyles hextra hsemicolon, h.removedLinks_eq hextra hgone,
    ← renumber_eq_of_getElem? hr]
  exact filterMap_renumbered hnodup (not_mem_gonePositions hmem hstay) _

/-- After a deletion every link that stays is given the properties that it was given before. -/
theorem delete_keepsLinkStyles {e : Edited} (ids : IdAllocator) (hkind : s.kind? = some .flowchart)
    (hsemicolon : NoFinalSemicolon (View.ofSource s)) :
    (∀ id, (apply (.deleteNode id) s ids).1 = .ok e →
      KeepsLinkStyles (·.link.touches id) s e.source) ∧
    ∀ i, (apply (.deleteEdge i) s ids).1 = .ok e → KeepsLinkStyles (·.index = i) s e.source := by
  constructor
  · intro id hok
    exact (isDeletion_deleteNode hok).keepsLinkStyles hkind hsemicolon
  · intro i hok
    obtain ⟨line, h⟩ := isDeletion_deleteEdge hok
    exact h.keepsLinkStyles hkind hsemicolon

/-- A link goes; a directive for the links behind it, with repeated and missing positions, follows
them, and one for this link alone goes. -/
theorem delete_keepsLinkStyles_sample :
    let s : Source := .ofText
      "flowchart TD\nA --> B\nB --> C\nC --> D\nlinkStyle 2,9,2,0 a:b\nlinkStyle 0 c:d".toList
    let after : Source := .ofText
      "flowchart TD\nB --> C\nC --> D\nlinkStyle 1,8,1 a:b".toList
    s.kind? = some .flowchart ∧ NoFinalSemicolon (View.ofSource s) ∧
      (apply (.deleteNode ['A']) s {}).1 = .ok ⟨after, none⟩ ∧
      (apply (.deleteEdge 0) s {}).1 = .ok ⟨after, none⟩ ∧
      KeepsLinkStyles (·.link.touches ['A']) s after ∧ KeepsLinkStyles (·.index = 0) s after := by
  intro s after
  have hkind : s.kind? = some .flowchart := by decide +kernel
  have hsemicolon : NoFinalSemicolon (View.ofSource s) := by
    rw [NoFinalSemicolon]
    decide +kernel
  have hnode : (apply (.deleteNode ['A']) s {}).1 = .ok ⟨after, none⟩ := by decide +kernel
  have hedge : (apply (.deleteEdge 0) s {}).1 = .ok ⟨after, none⟩ := by decide +kernel
  exact ⟨hkind, hsemicolon, hnode, hedge, (delete_keepsLinkStyles {} hkind hsemicolon).1 _ hnode,
    (delete_keepsLinkStyles {} hkind hsemicolon).2 _ hedge⟩

end DiagramEditor.Edit.Flowchart
