import DiagramEditor.Proofs.Edit.Flowchart.Removal
import DiagramEditor.Proofs.Flowchart.Written

/-!
# Properties that stay with their links

A `linkStyle` directive names links by number, so a line that comes or goes can give the properties
of one link to another. They are attached (`IsAttached`) if every link is found again on the line
where its own has come to be, with the properties that it had.

An edit that writes neither links nor directives keeps them attached (`Carries.isAttached`). If it
writes some in one place, the links behind them get other numbers, and directives among them name
links too; this says exactly when all goes well nevertheless (`isAttached_insert_iff`).
-/

namespace DiagramEditor.Edit.Flowchart

open DiagramEditor.Flowchart Source Text

variable {s s' s'' : Source} {f g : Nat → Nat}

/-- The links on the lines of the body. -/
def bodyLinks (s : Source) : List (Nat × LinkLine) :=
  found Statement.link? (statements s)

/-- Every link is on the line that `f` gives for its old one, and has the properties that it had. -/
def IsAttached (f : Nat → Nat) (s s' : Source) : Prop :=
  ∀ r ∈ (View.ofSource s).links, ∃ r' ∈ (View.ofSource s').links,
    r'.line = f r.line ∧ r'.link = r.link ∧
      (View.ofSource s').propertiesAt r'.index = (View.ofSource s).propertiesAt r.index

/-! ## Numbers of links -/

theorem getElem?_links (s : Source) (k : Nat) :
    (View.ofSource s).links[k]? = (bodyLinks s)[k]?.map fun p => ⟨k, p.1, p.2⟩ := by
  rw [View.links_ofSource, View.numberLinks, List.getElem?_map, List.getElem?_zipIdx, Option.map_map,
    Nat.zero_add]
  rfl

/-- Where the new number of every link is known, its properties have to be found there. -/
theorem isAttached_iff_of_number (number : Nat → Nat)
    (h : ∀ (k : Nat) (p : Nat × LinkLine), (bodyLinks s)[k]? = some p →
      (bodyLinks s')[number k]? = some (f p.1, p.2)) :
    IsAttached f s s' ↔ ∀ k < (bodyLinks s).length,
      (View.ofSource s').propertiesAt (number k) = (View.ofSource s).propertiesAt k := by
  constructor
  · intro hattached k hk
    obtain ⟨p, hp⟩ : ∃ p, (bodyLinks s)[k]? = some p := ⟨_, List.getElem?_eq_getElem hk⟩
    have hr : (View.ofSource s).links[k]? = some ⟨k, p.1, p.2⟩ := by
      rw [getElem?_links, hp]
      rfl
    have hr' : (View.ofSource s').links[number k]? = some ⟨number k, f p.1, p.2⟩ := by
      rw [getElem?_links, h k p hp]
      rfl
    obtain ⟨r', hmem, hline, -, hproperties⟩ := hattached _ (List.mem_of_getElem? hr)
    obtain ⟨j, hj⟩ := List.getElem?_of_mem hmem
    rw [View.index_of_getElem?_links hj, View.eq_of_line_links hj hr' hline] at hproperties
    exact hproperties
  · intro hall r hr
    obtain ⟨k, hk⟩ := List.getElem?_of_mem hr
    have hindex := View.index_of_getElem?_links hk
    rw [getElem?_links] at hk
    obtain ⟨p, hp, rfl⟩ := Option.map_eq_some_iff.1 hk
    have hr' : (View.ofSource s').links[number k]? = some ⟨number k, f p.1, p.2⟩ := by
      rw [getElem?_links, h k p hp]
      rfl
    exact ⟨_, List.mem_of_getElem? hr', rfl, rfl, hall k (List.getElem?_eq_some_iff.1 hp).1⟩

/-! ## Edits that write no marks -/

/-- The marks are the old ones, each on the line that `f` gives for its own. -/
def Carries (f : Nat → Nat) (s s' : Source) : Prop :=
  marks s' = (marks s).map (Prod.map f id)

theorem Carries.trans (h : Carries f s s') (h' : Carries g s' s'') : Carries (g ∘ f) s s'' := by
  rw [Carries, h', h, List.map_map]
  rfl

theorem Carries.congr (h : Carries f s s') (hfg : ∀ j, f j = g j) : Carries g s s' := by
  rwa [← funext hfg]

/-- What the new body holds of one kind of marks. -/
theorem Carries.found {α : Type} (h : Carries f s s') {get : Statement → Option α}
    (hget : ∀ st, st.isMark = false → get st = none) :
    found get (statements s') = (Flowchart.found get (statements s)).map (Prod.map f id) := by
  rw [← found_marks hget, ← found_marks hget, h, found_map]

/-- Links keep their numbers, and directives go on naming them. -/
theorem Carries.isAttached (h : Carries f s s') : IsAttached f s s' := by
  refine (isAttached_iff_of_number id fun k p hp => ?_).2 fun k _ => ?_
  · rw [bodyLinks, h.found fun _ => link?_eq_none, id, List.getElem?_map]
    rw [bodyLinks] at hp
    rw [hp]
    rfl
  · rw [View.propertiesAt, View.propertiesAt, View.linkStyles_ofSource, View.linkStyles_ofSource,
      h.found fun _ => linkStyle?_eq_none, List.filter_map, List.map_map]
    rfl

/-! ## Lines that come and go -/

/-- The line number `j` after `n` lines were inserted, the first of which has the number `i`. -/
def lineAfterInsert (i n j : Nat) : Nat :=
  if i ≤ j then j + n else j

/-- The line number `j` after some lines were deleted: the number of lines above that are left. -/
def lineAfterDelete (indices : List Nat) (j : Nat) : Nat :=
  ((List.range j).filter fun i => !indices.contains i).length

theorem lineAfterDelete_succ (indices : List Nat) (j : Nat) : lineAfterDelete indices (j + 1) =
    lineAfterDelete indices j + if indices.contains j then 0 else 1 := by
  rw [lineAfterDelete, lineAfterDelete, List.range_succ, List.filter_append, List.length_append,
    List.filter_cons, List.filter_nil]
  cases indices.contains j <;> rfl

/-- One line pulls those below up. -/
theorem lineAfterDelete_singleton (i j : Nat) :
    lineAfterDelete [i] j = if i < j then j - 1 else j := by
  induction j with
  | zero => rfl
  | succ j ih =>
    rw [lineAfterDelete_succ, ih]
    simp only [List.contains_cons, List.contains_nil, Bool.or_false, beq_iff_eq]
    split <;> split <;> split <;> omega

section Declared

variable {front before texts after tail : List Text} {line : Text}

/-- Lines that are no marks are inserted. -/
theorem carries_insert (h : IsDeclared .flowchart front line (before ++ after) s)
    (h' : IsDeclared .flowchart front line (before ++ texts ++ after) s')
    (htexts : ∀ text ∈ texts, (Statement.ofLine text).isMark = false) :
    Carries (lineAfterInsert (front.length + 1 + before.length) texts.length) s s' := by
  rw [Carries, marks_eq h, marks_eq h', marksFrom_append, marksFrom_append, marksFrom_append,
    marksFrom_eq_nil htexts, List.append_nil, List.length_append, ← Nat.add_assoc,
    marksFrom_add (front.length + 1 + before.length), List.map_append]
  congr 1
  · refine ((List.map_congr_left fun p hp => ?_).trans (List.map_id _)).symm
    have := (le_of_mem_marksFrom hp).2
    rw [Prod.map, lineAfterInsert, if_neg (by omega)]
    rfl
  · refine List.map_congr_left fun p hp => ?_
    have := (le_of_mem_marksFrom hp).1
    rw [Prod.map, Prod.map, lineAfterInsert, if_pos this]

theorem marksFrom_filter {indices : List Nat} {start first : Nat} {lines : List Text}
    (h : ∀ p ∈ numbered start lines, p.1 ∈ indices → (Statement.ofLine p.2).isMark = false) :
    marksFrom first (((numbered start lines).filter fun p => !indices.contains p.1).map Prod.snd) =
      (marksFrom start lines).map (Prod.map (fun j => first +
        ((List.range' start (j - start)).filter fun i => !indices.contains i).length) id) := by
  induction lines generalizing start first with
  | nil => rfl
  | cons line lines ih =>
    have hrest : ∀ p ∈ numbered (start + 1) lines, p.1 ∈ indices →
        (Statement.ofLine p.2).isMark = false := fun p hp =>
      h p (List.mem_cons_of_mem _ hp)
    have hstep : ∀ p ∈ marksFrom (start + 1) lines,
        ((List.range' start (p.1 - start)).filter fun i => !indices.contains i).length =
          (if indices.contains start then 0 else 1) +
            ((List.range' (start + 1) (p.1 - (start + 1))).filter fun i =>
              !indices.contains i).length := by
      intro p hp
      have hle := (le_of_mem_marksFrom hp).1
      rw [show p.1 - start = p.1 - (start + 1) + 1 by omega, List.range'_succ, List.filter_cons]
      cases indices.contains start <;> simp [Nat.add_comm]
    rw [numbered_cons, marksFrom_cons start, List.map_append]
    cases hc : indices.contains start with
    | true =>
      have hline := h (start, line) (by rw [numbered_cons]; exact List.mem_cons_self)
        (List.contains_iff_mem.1 hc)
      rw [List.filter_cons_of_neg (by simp [List.contains_iff_mem.1 hc]), ih hrest,
        marksFrom_singleton, hline, if_neg Bool.false_ne_true, List.map_nil, List.nil_append]
      refine List.map_congr_left fun p hp => ?_
      rw [Prod.map, Prod.map, hstep p hp, hc, if_pos rfl, Nat.zero_add]
    | false =>
      have hmem : start ∉ indices := fun hmem => by simp [hmem] at hc
      rw [List.filter_cons_of_pos (by simp [hmem]), List.map_cons, marksFrom_cons, ih hrest]
      congr 1
      · rw [marksFrom_singleton, marksFrom_singleton]
        split <;> simp
      · refine List.map_congr_left fun p hp => ?_
        rw [Prod.map, Prod.map, hstep p hp, hc, if_neg Bool.false_ne_true, Nat.add_assoc]

section Delete

variable {body : List Text} {indices : List Nat} (h : IsDeclared .flowchart front line body s)
  (hbody : ∀ i ∈ indices, front.length < i)

include hbody

theorem contains_eq_false_of_le {i : Nat} (hi : i ≤ front.length) : (!indices.contains i) = true := by
  rw [Bool.not_eq_true', ← Bool.not_eq_true, List.contains_iff_mem]
  exact fun hmem => Nat.not_le.2 (hbody i hmem) hi

/-- The lines of the body that stay are counted behind the declaration. -/
theorem lineAfterDelete_add (k : Nat) : lineAfterDelete indices (front.length + 1 + k) =
    front.length + 1 + ((List.range' (front.length + 1) k).filter fun i => !indices.contains i).length := by
  have habove : (List.range' 0 (front.length + 1)).filter (fun i => !indices.contains i) =
      List.range' 0 (front.length + 1) :=
    List.filter_eq_self.2 fun i hi =>
      contains_eq_false_of_le hbody (by rw [List.mem_range'_1] at hi; omega)
  rw [lineAfterDelete, List.range_eq_range', ← List.range'_append_1, List.filter_append,
    List.length_append, Nat.zero_add, habove, List.length_range']

include h

/-- Lines of the body are deleted. -/
theorem isDeclared_deleteLineSet :
    IsDeclared .flowchart front line (((numbered (front.length + 1) body).filter fun p =>
      !indices.contains p.1).map Prod.snd) (s.deleteLineSet indices) := by
  have hfront : (numbered 0 (front ++ [line])).filter (fun p => !indices.contains p.1) =
      numbered 0 (front ++ [line]) := by
    refine List.filter_eq_self.2 fun p hp => contains_eq_false_of_le hbody ?_
    have := (List.getElem?_eq_some_iff.1 (mem_numbered.1 hp).2).1
    rw [List.length_append, List.length_singleton] at this
    omega
  refine h.with_body ?_
  have hlines : s.lines = (front ++ [line]) ++ body := by
    rw [h.lines, List.append_assoc]
    rfl
  rw [lines_deleteLineSet, hlines, numbered_append, List.filter_append, hfront, List.map_append,
    map_snd_numbered, List.length_append, List.length_singleton, Nat.zero_add, List.append_assoc]
  rfl

/-- Lines that are no marks carry the marks along when they go. -/
theorem carries_deleteLineSet
    (hmark : ∀ i ∈ indices, ∀ st, (i, st) ∈ statements s → st.isMark = false) :
    Carries (lineAfterDelete indices) s (s.deleteLineSet indices) := by
  rw [Carries, marks_eq h, marks_eq (isDeclared_deleteLineSet h hbody), marksFrom_filter fun p hp hi =>
    hmark p.1 hi _ (mem_statements.2 ⟨p.2, by rw [h.body_eq]; exact hp, rfl⟩)]
  refine List.map_congr_left fun p hp => ?_
  obtain ⟨k, hk⟩ := Nat.exists_eq_add_of_le (le_of_mem_marksFrom hp).1
  rw [Prod.map, Prod.map, hk, lineAfterDelete_add hbody, Nat.add_sub_cancel_left]

end Delete

/-! ## Edits that write marks -/

/-- The directives on the lines. -/
def directivesOf (texts : List Text) : List LinkStyle :=
  texts.filterMap fun text => (Statement.ofLine text).linkStyle?

/-- The links on the lines. -/
def linksOf (texts : List Text) : List LinkLine :=
  texts.filterMap fun text => (Statement.ofLine text).link?

/-- The properties that the directives give to the link number `k`, where those of the view are
joined by some more in front of the line `i`. -/
def propertiesWith (v : View) (i : Nat) (more : List LinkStyle) (k : Nat) : List Properties :=
  (((v.linkStyles.filter fun p => p.1 < i).map Prod.snd ++ more ++
    (v.linkStyles.filter fun p => i ≤ p.1).map Prod.snd).filter fun d =>
      d.target.positions.contains k).map (·.properties)

/-- Links keep their properties where the texts are inserted in front of the line `i`: no directive
among them names a link in front of them, and the links behind have at their new numbers what they
had at their old ones. -/
def KeepsProperties (v : View) (i : Nat) (texts : List Text) : Prop :=
  ∀ r ∈ v.links, if r.line < i then ∀ d ∈ directivesOf texts, r.index ∉ d.target.positions
    else propertiesWith v i (directivesOf texts) (r.index + (linksOf texts).length) =
      v.propertiesAt r.index

theorem map_snd_found_marksFrom {α : Type} {get : Statement → Option α}
    (hget : ∀ st, st.isMark = false → get st = none) (start : Nat) (texts : List Text) :
    (found get (marksFrom start texts)).map Prod.snd =
      texts.filterMap fun text => get (Statement.ofLine text) := by
  rw [map_snd_found]
  induction texts generalizing start with
  | nil => rfl
  | cons text texts ih =>
    rw [marksFrom_cons, List.map_append, List.filterMap_append, ih, marksFrom_singleton]
    cases hmark : (Statement.ofLine text).isMark with
    | true => cases hg : get (Statement.ofLine text) <;> simp [hg]
    | false => simp [hget _ hmark]

theorem le_of_mem_found_marksFrom {α : Type} {get : Statement → Option α} {start : Nat}
    {lines : List Text} {q : Nat × α} (h : q ∈ found get (marksFrom start lines)) :
    start ≤ q.1 ∧ q.1 < start + lines.length := by
  obtain ⟨st, hst, -⟩ := mem_found.1 (show (q.1, q.2) ∈ _ from h)
  exact le_of_mem_marksFrom hst

theorem propertiesAt_eq (v : View) (k : Nat) : v.propertiesAt k =
    ((v.linkStyles.map Prod.snd).filter fun d => d.target.positions.contains k).map
      (·.properties) := by
  rw [View.propertiesAt, List.filter_map, List.map_map]
  rfl

section Found

variable (h : IsDeclared .flowchart front line (before ++ after) s) {α : Type}
  {get : Statement → Option α} (hget : ∀ st, st.isMark = false → get st = none)

include h hget

/-- What the body holds of one kind of marks, up to some line and from there on. -/
theorem found_split : found get (statements s) =
    found get (marksFrom (front.length + 1) before) ++
      found get (marksFrom (front.length + 1 + before.length) after) := by
  rw [← found_marks hget, marks_eq h, marksFrom_append, found_append]

theorem filter_lt_found : (found get (statements s)).filter
    (fun p => p.1 < front.length + 1 + before.length) =
      found get (marksFrom (front.length + 1) before) := by
  rw [found_split h hget, List.filter_append,
    List.filter_eq_self.2 fun q hq => decide_eq_true (le_of_mem_found_marksFrom hq).2,
    List.filter_eq_nil_iff.2 fun q hq => by
      simpa using (le_of_mem_found_marksFrom hq).1, List.append_nil]

theorem filter_le_found : (found get (statements s)).filter
    (fun p => front.length + 1 + before.length ≤ p.1) =
      found get (marksFrom (front.length + 1 + before.length) after) := by
  rw [found_split h hget, List.filter_append, List.filter_eq_nil_iff.2 fun q hq => by
      simpa using (le_of_mem_found_marksFrom hq).2,
    List.filter_eq_self.2 fun q hq => decide_eq_true (le_of_mem_found_marksFrom hq).1,
    List.nil_append]

omit h in
/-- The new body has the old marks and those on the new lines. -/
theorem found_insert
    (h' : IsDeclared .flowchart front line (before ++ texts ++ after ++ tail) s')
    (htail : ∀ text ∈ tail, (Statement.ofLine text).isMark = false) :
    found get (statements s') = found get (marksFrom (front.length + 1) before) ++
      found get (marksFrom (front.length + 1 + before.length) texts) ++
      (found get (marksFrom (front.length + 1 + before.length) after)).map
        (Prod.map (· + texts.length) id) := by
  rw [← found_map, ← marksFrom_add, ← found_marks hget, marks_eq h', marksFrom_append,
    marksFrom_append, marksFrom_append, marksFrom_eq_nil htail, List.append_nil, found_append,
    found_append, List.length_append, ← Nat.add_assoc]

end Found

variable (h : IsDeclared .flowchart front line (before ++ after) s)
  (h' : IsDeclared .flowchart front line (before ++ texts ++ after ++ tail) s')
  (htail : ∀ text ∈ tail, (Statement.ofLine text).isMark = false)

include h

theorem map_snd_filter_linkStyles :
    ((View.ofSource s).linkStyles.filter fun p =>
      p.1 < front.length + 1 + before.length).map Prod.snd = directivesOf before ∧
    ((View.ofSource s).linkStyles.filter fun p =>
      front.length + 1 + before.length ≤ p.1).map Prod.snd = directivesOf after := by
  have hget : ∀ st : Statement, st.isMark = false → st.linkStyle? = none :=
    fun _ => linkStyle?_eq_none
  rw [View.linkStyles_ofSource]
  constructor
  · exact (congrArg _ (filter_lt_found h hget)).trans (map_snd_found_marksFrom hget ..)
  · exact (congrArg _ (filter_le_found h hget)).trans (map_snd_found_marksFrom hget ..)

include h' htail in
theorem propertiesAt_insert (k : Nat) : (View.ofSource s').propertiesAt k =
    propertiesWith (View.ofSource s) (front.length + 1 + before.length) (directivesOf texts) k := by
  have hget : ∀ st : Statement, st.isMark = false → st.linkStyle? = none :=
    fun _ => linkStyle?_eq_none
  obtain ⟨hbefore, hafter⟩ := map_snd_filter_linkStyles h
  have hsnd : (View.ofSource s').linkStyles.map Prod.snd =
      directivesOf before ++ directivesOf texts ++ directivesOf after := by
    rw [View.linkStyles_ofSource, found_insert hget h' htail, List.map_append, List.map_append,
      List.map_map, map_snd_found_marksFrom hget, map_snd_found_marksFrom hget]
    congr 1
    exact map_snd_found_marksFrom hget ..
  rw [propertiesAt_eq, hsnd, propertiesWith, hbefore, hafter]

/-- More directives leave the properties of a link as they are if none of them names it. -/
theorem propertiesWith_eq_iff (more : List LinkStyle) (k : Nat) :
    propertiesWith (View.ofSource s) (front.length + 1 + before.length) more k =
      (View.ofSource s).propertiesAt k ↔ ∀ d ∈ more, k ∉ d.target.positions := by
  have hget : ∀ st : Statement, st.isMark = false → st.linkStyle? = none :=
    fun _ => linkStyle?_eq_none
  obtain ⟨hbefore, hafter⟩ := map_snd_filter_linkStyles h
  have hsnd : (View.ofSource s).linkStyles.map Prod.snd =
      directivesOf before ++ directivesOf after := by
    rw [View.linkStyles_ofSource, found_split h hget, List.map_append,
      map_snd_found_marksFrom hget, map_snd_found_marksFrom hget]
    rfl
  rw [propertiesAt_eq, hsnd, propertiesWith, hbefore, hafter]
  simp only [List.filter_append, List.map_append, List.append_assoc, List.append_cancel_left_eq]
  constructor
  · intro h d hd hk
    have hlength := congrArg List.length h
    rw [List.length_append, Nat.add_eq_right, List.length_map, List.length_eq_zero_iff,
      List.filter_eq_nil_iff] at hlength
    exact hlength d hd (List.contains_iff_mem.2 hk)
  · intro h
    rw [List.filter_eq_nil_iff.2 fun d hd => by simpa using h d hd]
    rfl

include h' htail in
/-- The links stay attached exactly where they keep their properties. -/
theorem isAttached_insert_iff :
    IsAttached (lineAfterInsert (front.length + 1 + before.length) texts.length) s s' ↔
      KeepsProperties (View.ofSource s) (front.length + 1 + before.length) texts := by
  have hget : ∀ st : Statement, st.isMark = false → st.link? = none := fun _ => link?_eq_none
  have hsplit := found_split h hget
  have hnew := found_insert hget h' htail
  have hcount : (found Statement.link? (marksFrom (front.length + 1 + before.length) texts)).length =
      (linksOf texts).length := by
    rw [linksOf, ← map_snd_found_marksFrom hget, List.length_map]
  -- A link is either in front of the new lines, with its old number, or behind them.
  have hcases : ∀ (k : Nat) (p : Nat × LinkLine), (bodyLinks s)[k]? = some p →
      let first := found Statement.link? (marksFrom (front.length + 1) before)
      let last := found Statement.link? (marksFrom (front.length + 1 + before.length) after)
      (k < first.length ∧ p.1 < front.length + 1 + before.length ∧ first[k]? = some p) ∨
        (first.length ≤ k ∧ front.length + 1 + before.length ≤ p.1 ∧
          last[k - first.length]? = some p) := by
    intro k p hp first last
    rw [bodyLinks, hsplit] at hp
    rcases Nat.lt_or_ge k first.length with hk | hk
    · rw [List.getElem?_append_left hk] at hp
      exact .inl ⟨hk, (le_of_mem_found_marksFrom (List.mem_of_getElem? hp)).2, hp⟩
    · rw [List.getElem?_append_right hk] at hp
      exact .inr ⟨hk, (le_of_mem_found_marksFrom (List.mem_of_getElem? hp)).1, hp⟩
  rw [isAttached_iff_of_number fun k =>
    if k < (found Statement.link? (marksFrom (front.length + 1) before)).length then k
    else k + (linksOf texts).length]
  · constructor
    · intro hall r hr
      obtain ⟨k, hk⟩ := List.getElem?_of_mem hr
      rw [getElem?_links] at hk
      obtain ⟨p, hp, rfl⟩ := Option.map_eq_some_iff.1 hk
      have hprops := hall k (List.getElem?_eq_some_iff.1 hp).1
      rw [propertiesAt_insert h h' htail] at hprops
      rcases hcases k p hp with ⟨hlt, hline, -⟩ | ⟨hge, hline, -⟩
      · rw [if_pos hlt, propertiesWith_eq_iff h] at hprops
        rw [if_pos hline]
        exact hprops
      · rw [if_neg (Nat.not_lt.2 hge)] at hprops
        rw [if_neg (Nat.not_lt.2 hline)]
        exact hprops
    · intro hall k hk
      obtain ⟨p, hp⟩ : ∃ p, (bodyLinks s)[k]? = some p := ⟨_, List.getElem?_eq_getElem hk⟩
      have hr : (View.ofSource s).links[k]? = some ⟨k, p.1, p.2⟩ := by
        rw [getElem?_links, hp]
        rfl
      have hkeeps := hall _ (List.mem_of_getElem? hr)
      rw [propertiesAt_insert h h' htail]
      rcases hcases k p hp with ⟨hlt, hline, -⟩ | ⟨hge, hline, -⟩
      · rw [if_pos hline] at hkeeps
        rw [if_pos hlt]
        exact (propertiesWith_eq_iff h _ k).2 hkeeps
      · rw [if_neg (Nat.not_lt.2 hline)] at hkeeps
        rw [if_neg (Nat.not_lt.2 hge)]
        exact hkeeps
  · intro k p hp
    rw [bodyLinks, hnew]
    rcases hcases k p hp with ⟨hlt, hline, hget⟩ | ⟨hge, hline, hget⟩
    · rw [if_pos hlt, lineAfterInsert, if_neg (Nat.not_le.2 hline), List.append_assoc,
        List.getElem?_append_left hlt, hget]
    · rw [if_neg (Nat.not_lt.2 hge), lineAfterInsert, if_pos hline, List.getElem?_append_right
        (by rw [List.length_append, hcount]; omega), List.getElem?_map, List.length_append, hcount,
        Nat.add_sub_add_right, hget]
      rfl

end Declared

end DiagramEditor.Edit.Flowchart
