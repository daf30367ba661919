import DiagramEditor.Proofs.EntityRelation.Line
import DiagramEditor.Proofs.Source.Block
import DiagramEditor.Proofs.Source.Declaration

/-!
# Places of lines

The lines of the body are read one after the other, so the place of a line is what stands before it
(`insideAt`, `mem_places_iff`). Where the blocks are balanced, no block of an entity is left open
(`insideAfter_bodyTexts`), and the block of an entity goes from its opener to the next closing brace
(`exists_close_of_insideAfter`).
-/

namespace DiagramEditor.EntityRelation

open Text Source

variable {s : Source} {text name : Text} {texts before after front : List Text} {inside : Option Text}
  {i : Nat} {effect : Effect}

/-! ## The body -/

/-- The number of the first line of the body. -/
def bodyStart (s : Source) : Nat :=
  (s.declarationOf? .er).elim 0 (· + 1)

theorem bodyTexts_eq (s : Source) : bodyTexts s = s.lines.drop (bodyStart s) := by
  rw [bodyTexts, Source.body, numberedFrom_eq, map_snd_numbered]
  rfl

theorem body_eq (s : Source) : s.body .er = numbered (bodyStart s) (bodyTexts s) := by
  rw [bodyTexts_eq]
  exact numberedFrom_eq (bodyStart s) s

theorem bodyStart_le (s : Source) : bodyStart s ≤ s.lines.length :=
  bodyIndex_le .er s

/-- The entity whose block is open in front of the line with this number. -/
def insideAt (s : Source) (i : Nat) : Option Text :=
  insideAfter none ((s.lines.take i).drop (bodyStart s))

/-- A line of the body has its number from the lines before it. -/
theorem numbered_eq_append_iff {start : Nat} {lines more : List (Nat × Text)} :
    numbered start texts = lines ++ (i, text) :: more ↔
      ∃ before after, texts = before ++ text :: after ∧ i = start + before.length ∧
        lines = numbered start before ∧ more = numbered (i + 1) after := by
  constructor
  · intro h
    have htexts : texts = lines.map Prod.snd ++ text :: more.map Prod.snd := by
      rw [← map_snd_numbered start texts, h, List.map_append, List.map_cons]
    rw [htexts, numbered_append, numbered_cons] at h
    have hlength : (numbered start (lines.map Prod.snd)).length = lines.length := by
      rw [← List.length_map Prod.snd, map_snd_numbered, List.length_map]
    obtain ⟨hlines, hrest⟩ := List.append_inj h hlength
    obtain ⟨hfirst, hmore⟩ := List.cons.inj hrest
    have hi := (Prod.mk.inj hfirst).1
    refine ⟨_, _, htexts, ?_, hlines.symm, ?_⟩
    · rw [← hi]
    · rw [← hi, hmore]
  · rintro ⟨before, after, rfl, rfl, rfl, rfl⟩
    rw [numbered_append, numbered_cons]

/-- The place of a line is what stands before it. -/
theorem mem_places_iff : (i, text, inside) ∈ places s ↔
    bodyStart s ≤ i ∧ s.lines[i]? = some text ∧ insideAt s i = inside := by
  rw [places, Reader.mem_places, insideAt, List.drop_take, ← bodyTexts_eq]
  constructor
  · rintro ⟨lines, more, hbody, hinside⟩
    obtain ⟨before, after, htexts, rfl, rfl, -⟩ :=
      numbered_eq_append_iff.1 ((body_eq s).symm.trans hbody)
    rw [Reader.openEntity_readAll, map_snd_numbered] at hinside
    refine ⟨Nat.le_add_right _ _, ?_, ?_⟩
    · rw [← List.getElem?_drop, ← bodyTexts_eq, htexts]
      simp
    · rw [htexts, Nat.add_sub_cancel_left, List.take_left]
      exact hinside
  · rintro ⟨hstart, hline, hinside⟩
    obtain ⟨k, rfl⟩ := Nat.exists_eq_add_of_le hstart
    rw [Nat.add_sub_cancel_left] at hinside
    rw [← List.getElem?_drop, ← bodyTexts_eq, List.getElem?_eq_some_iff] at hline
    obtain ⟨hk, rfl⟩ := hline
    have hsplit : bodyTexts s = (bodyTexts s).take k ++ (bodyTexts s)[k] :: (bodyTexts s).drop (k + 1) := by
      rw [← List.drop_eq_getElem_cons hk, List.take_append_drop]
    refine ⟨_, _, (body_eq s).trans (numbered_eq_append_iff.2 ⟨_, _, hsplit, ?_, rfl, rfl⟩), ?_⟩
    · rw [List.length_take_of_le (Nat.le_of_lt hk)]
    · rw [Reader.openEntity_readAll, map_snd_numbered]
      exact hinside

/-- The entity whose block is open further down. -/
theorem insideAt_eq {j : Nat} (hi : bodyStart s ≤ i) (hj : i ≤ j) :
    insideAt s j = insideAfter (insideAt s i) ((s.lines.take j).drop i) := by
  have hle : bodyStart s ≤ (s.lines.take i).length := by
    have := bodyStart_le s
    rw [List.length_take]
    omega
  rw [insideAt, insideAt, ← insideAfter_append, ← List.drop_append_of_le_length hle,
    take_append_drop_take hj]

theorem mem_effects_iff : effect ∈ effects inside texts ↔
    ∃ before text after, texts = before ++ text :: after ∧
      effect = Effect.ofLine (insideAfter inside before) text := by
  constructor
  · intro h
    induction texts generalizing inside with
    | nil => cases h
    | cons text texts ih =>
      rcases List.mem_cons.1 h with h | h
      · exact ⟨[], text, texts, rfl, h⟩
      · obtain ⟨before, text', after, rfl, heffect⟩ := ih h
        exact ⟨text :: before, text', after, rfl, heffect⟩
  · rintro ⟨before, text, after, rfl, rfl⟩
    rw [effects_append]
    exact List.mem_append_right _ List.mem_cons_self

/-- A line has one place. -/
theorem mem_places_of_mem_body (h : (i, text) ∈ s.body .er) : (i, text, insideAt s i) ∈ places s := by
  rw [body_eq, mem_numbered, bodyTexts_eq, List.getElem?_drop] at h
  obtain ⟨hstart, hline⟩ := h
  rw [Nat.add_sub_cancel' hstart] at hline
  exact mem_places_iff.2 ⟨hstart, hline, rfl⟩

/-- The entity whose block is open behind a line. -/
theorem insideAt_succ (h : (i, text, inside) ∈ places s) :
    insideAt s (i + 1) = (Effect.ofLine inside text).next inside := by
  obtain ⟨hstart, hline, rfl⟩ := mem_places_iff.1 h
  rw [insideAt_eq hstart (Nat.le_succ i), drop_take_succ hline]
  rfl

/-- What a line of the stretch does, it does at its place. -/
theorem exists_place_of_mem_effects {j : Nat} (hi : bodyStart s ≤ i)
    (h : effect ∈ effects (insideAt s i) ((s.lines.take j).drop i)) :
    ∃ k text, i ≤ k ∧ k < j ∧ (k, text, insideAt s k) ∈ places s ∧
      effect = Effect.ofLine (insideAt s k) text := by
  obtain ⟨before, text, after, hsplit, rfl⟩ := mem_effects_iff.1 h
  have hline : ((s.lines.take j).drop i)[before.length]? = some text := by
    rw [hsplit]
    simp
  rw [List.getElem?_drop, List.getElem?_take] at hline
  obtain ⟨hj, hline⟩ := Option.ite_none_right_eq_some.1 hline
  have hinside : insideAt s (i + before.length) = insideAfter (insideAt s i) before := by
    rw [insideAt_eq hi (Nat.le_add_right _ _), List.drop_take, Nat.add_sub_cancel_left]
    rw [List.drop_take] at hsplit
    have := congrArg (List.take before.length) hsplit
    rw [List.take_take, List.take_left, Nat.min_eq_left (by omega)] at this
    rw [this]
  exact ⟨i + before.length, text, Nat.le_add_right _ _, hj,
    mem_places_iff.2 ⟨Nat.le_add_right_of_le hi, hline, rfl⟩, by rw [hinside]⟩

/-! ## Blocks -/

/-- Where everything is closed in the end, no block of an entity is left open. -/
theorem insideAfter_eq_none {index : Nat} {openers : List Nat}
    (h : checkBalanceFrom blockRules index openers texts = .ok ())
    (hinside : inside.isSome → 0 < openers.length) : insideAfter inside texts = none := by
  -- Whenever the view has a block open, the check has one open too.
  induction texts generalizing inside index openers with
  | nil =>
    cases openers with
    | nil => exact Option.not_isSome_iff_eq_none.1 fun h => nomatch hinside h
    | cons start outer => cases h
  | cons text texts ih =>
    obtain ⟨openers', h, hlength⟩ := checkBalanceFrom_cons h
    rw [insideAfter_cons]
    refine ih h fun hnext => ?_
    cases heffect : Effect.ofLine inside text with
    | close name => rw [heffect] at hnext; cases hnext
    | header header =>
      rw [heffect, Effect.next] at hnext
      split at hnext
      · next hform =>
        have hopen := EntityHeader.isBlockOpen_of_form (Effect.ofLine?_of_header heffect) hform
        rw [rise, blockStep_eq_enter_iff.2 hopen] at hlength
        dsimp only at hlength
        omega
      · cases hnext
    | _ =>
      -- Nothing is opened or closed for the view, so the line is no closing brace.
      rw [heffect] at hnext
      have hpos := hinside hnext
      have hclose : isBlockClose (trim text) = false := by
        by_contra hclose
        rw [Effect.ofLine_of_isBlockClose (by simpa using hclose)] at heffect
        obtain ⟨name, hname⟩ := Option.isSome_iff_exists.1 hnext
        rw [show inside = some name from hname] at heffect
        cases heffect
      have := rise_nonneg blockRules hclose
      omega

/-- A closing brace falls. -/
theorem blockStep_of_isBlockClose (h : isBlockClose (trim text) = true) :
    blockStep blockRules text = .leave := by
  have htrim : trim text = ['\x7d'] := by simpa [isBlockClose] using h
  rw [blockStep_eq_leave_iff, htrim]
  decide

theorem not_isBlockClose_of_rise (h : 0 ≤ rise blockRules text) : isBlockClose (trim text) = false := by
  by_contra hclose
  rw [rise_of_leave (blockStep_of_isBlockClose (by simpa using hclose))] at h
  omega

theorem insideAfter_bodyTexts (h : s.checkBalance blockRules = .ok ()) :
    insideAfter none (bodyTexts s) = none := by
  rw [checkBalance, ← List.take_append_drop (bodyStart s) s.lines] at h
  obtain ⟨index, openers, h, -⟩ := checkBalanceFrom_of_append h
  rw [bodyTexts_eq]
  exact insideAfter_eq_none h nofun

theorem insideAt_length (h : s.checkBalance blockRules = .ok ()) :
    insideAt s s.lines.length = none := by
  rw [insideAt, List.take_length, ← bodyTexts_eq]
  exact insideAfter_bodyTexts h

/-- The block of an entity that is not left open ends at the next closing brace. -/
theorem exists_close_of_insideAfter (h : insideAfter (some name) texts = none) :
    ∃ inner closer after, texts = inner ++ closer :: after ∧
      (∀ text ∈ inner, isBlockClose (trim text) = false) ∧ isBlockClose (trim closer) = true := by
  induction texts with
  | nil => cases h
  | cons text texts ih =>
    cases hclose : isBlockClose (trim text) with
    | true => exact ⟨[], text, texts, rfl, nofun, hclose⟩
    | false =>
      have hnext := (Stretch.of_not_isBlockClose hclose name).insideAfter
      rw [insideAfter_cons] at h hnext
      rw [show (Effect.ofLine (some name) text).next (some name) = some name from hnext] at h
      obtain ⟨inner, closer, after, rfl, hinner, hcloser⟩ := ih h
      exact ⟨text :: inner, closer, after, rfl, List.forall_mem_cons.2 ⟨hclose, hinner⟩, hcloser⟩

/-- Where the block of an entity is open, the line that has opened it stands above, and nothing has
closed it since. -/
theorem exists_header_of_insideAt (hstart : bodyStart s ≤ i) (hlength : i ≤ s.lines.length)
    (h : insideAt s i = some name) : ∃ j line header, (j, line, none) ∈ places s ∧
      EntityHeader.ofLine? line = some header ∧ header.name = name ∧ header.form = .blockOpen ∧
        j < i ∧ ∀ k, j < k → k ≤ i → insideAt s k = some name := by
  -- The induction goes down the body: the block is open already, or this line opens it.
  induction i, hstart using Nat.le_induction with
  | base =>
    rw [insideAt, List.drop_of_length_le (by rw [List.length_take]; omega)] at h
    cases h
  | succ i hstart ih =>
    obtain ⟨line, hline⟩ : ∃ line, s.lines[i]? = some line := ⟨_, List.getElem?_eq_getElem hlength⟩
    have hplace := mem_places_iff.2 ⟨hstart, hline, rfl⟩
    have hnext := (insideAt_succ hplace).symm.trans h
    by_cases hinside : insideAt s i = some name
    · obtain ⟨j, line, header, hj, hread, hname, hform, hlt, hsome⟩ := ih (by omega) hinside
      refine ⟨j, line, header, hj, hread, hname, hform, by omega, fun k hjk hk => ?_⟩
      rcases Nat.le_succ_iff.1 hk with hk | rfl
      exacts [hsome k hjk hk, h]
    · cases heffect : Effect.ofLine (insideAt s i) line with
      | header header =>
        rw [heffect, Effect.next] at hnext
        split at hnext
        · next hform =>
          rw [Effect.eq_none_of_header heffect] at hplace
          refine ⟨i, _, header, hplace, Effect.ofLine?_of_header heffect, Option.some.inj hnext, hform,
            Nat.lt_succ_self i, fun k hik hk => ?_⟩
          rw [show k = i + 1 by omega]
          exact h
        · cases hnext
      | close owner => rw [heffect] at hnext; cases hnext
      | _ => rw [heffect] at hnext; exact absurd hnext hinside

/-! ## Changes -/

/-- The second source has other lines in place of those from `i` to before `j`, and both are about one
entity only. -/
structure Splices (name : Text) (i j : Nat) (texts : List Text) (s s' : Source) : Prop where
  start : bodyStart s ≤ i
  le : i ≤ j
  lines : s'.lines = s.lines.take i ++ texts ++ s.lines.drop j
  old : ∀ effect ∈ effects (insideAt s i) ((s.lines.take j).drop i), effect.Concerns name
  new : Stretch name (insideAt s i) (insideAt s j) texts

namespace Splices

variable {s' : Source} {j : Nat}

/-- The view says the same about everything else. -/
theorem agreesExcept (h : Splices name i j texts s s') (hstart : bodyStart s' = bodyStart s) :
    View.AgreesExcept name (View.ofSource s) (View.ofSource s') := by
  -- The splice stands behind the declaration, so the bodies differ as the sources do.
  have hle : bodyStart s ≤ (s.lines.take i).length := by
    have := bodyStart_le s
    have := h.start
    rw [List.length_take]
    omega
  have hsplit : s.lines = s.lines.take i ++ ((s.lines.take j).drop i ++ s.lines.drop j) := by
    rw [← List.append_assoc, take_append_drop_take h.le, List.take_append_drop]
  have hold : bodyTexts s = (s.lines.take i).drop (bodyStart s) ++ (s.lines.take j).drop i ++
      s.lines.drop j := by
    rw [bodyTexts_eq, List.append_assoc, ← List.drop_append_of_le_length hle, ← hsplit]
  have hnew : bodyTexts s' = (s.lines.take i).drop (bodyStart s) ++ texts ++ s.lines.drop j := by
    rw [bodyTexts_eq, hstart, h.lines, List.append_assoc, List.append_assoc,
      List.drop_append_of_le_length hle]
  exact Stretch.agreesExcept ⟨(insideAt_eq h.start h.le).symm, h.old⟩ h.new hold hnew

/-- One line inside of a block gives way to some that stay inside. -/
theorem of_mem_places {line : Text} (hplace : (i, line, some name) ∈ places s)
    (hline : isBlockClose (trim line) = false) (htexts : Stretch name (some name) (some name) texts)
    (hlines : s'.lines = s.lines.take i ++ texts ++ s.lines.drop (i + 1)) :
    Splices name i (i + 1) texts s s' := by
  have hold := Stretch.of_not_isBlockClose hline name
  have hnext : insideAt s (i + 1) = some name := (insideAt_succ hplace).trans hold.insideAfter
  obtain ⟨hstart, hline, hinside⟩ := mem_places_iff.1 hplace
  refine ⟨hstart, Nat.le_succ i, hlines, ?_, ?_⟩
  · rw [hinside, drop_take_succ hline]
    exact hold.concerns
  · rw [hinside, hnext]
    exact htexts

/-- Some lines come between two others. -/
theorem between (hstart : bodyStart s ≤ i)
    (htexts : Stretch name (insideAt s i) (insideAt s i) texts)
    (hlines : s'.lines = s.lines.take i ++ texts ++ s.lines.drop i) :
    Splices name i i texts s s' := by
  refine ⟨hstart, Nat.le_refl i, hlines, ?_, htexts⟩
  rw [List.drop_take, Nat.sub_self, List.take_zero]
  exact nofun

end Splices

end DiagramEditor.EntityRelation
