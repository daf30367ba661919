import DiagramEditor.Proofs.Source.Lines
import DiagramEditor.Proofs.Text.Flat
import DiagramEditor.Source.Block

/-!
# Sources that are saved and loaded

The text of a source is read back as the same lines, up to an empty last one, exactly where no line
holds a line feed or ends in a carriage return (`reloads_iff`). The blocks of a source that comes
back are as balanced as they were (`checkBalance_of_reloads`), since the line that may be lost
neither opens nor closes one. The other way round, the lines of a text give the text again without
the carriage returns that end a line (`toText_ofText`).

A source without line breaks in its lines is flat (`IsFlat`), and comes back. The edits of lines
keep a source flat that are given flat lines.
-/

namespace DiagramEditor.Source

open Text

variable {s : Source} {line : Text}

/-- The lines come back from the text, an empty last one perhaps excepted. -/
def Reloads (s : Source) : Prop :=
  (ofText s.toText).lines = s.lines ∨ s.lines = (ofText s.toText).lines ++ [[]]

/-- The line comes back from a text. -/
def IsSavable (line : Text) : Prop :=
  '\n' ∉ line ∧ line.getLast? ≠ some '\r'

theorem dropReturn_append_return (line : Text) : dropReturn (line ++ ['\r']) = line := by
  rw [dropReturn, stripEnd?, List.reverse_append]
  change ((stripFront? ['\r'] ('\r' :: line.reverse)).map List.reverse).getD _ = line
  rw [stripFront?, if_pos rfl, stripFront?]
  exact List.reverse_reverse line

theorem dropReturn_eq_self (h : line.getLast? ≠ some '\r') : dropReturn line = line := by
  rcases List.eq_nil_or_concat line with rfl | ⟨init, c, rfl⟩
  · rfl
  · rw [List.concat_eq_append, List.getLast?_concat, ne_eq, Option.some.injEq] at h
    rw [List.concat_eq_append, dropReturn, stripEnd?, List.reverse_append]
    change ((stripFront? ['\r'] (c :: init.reverse)).map List.reverse).getD _ = _
    rw [stripFront?, if_neg (Ne.symm h)]
    rfl

theorem dropReturn_eq_self_iff : dropReturn line = line ↔ line.getLast? ≠ some '\r' := by
  refine ⟨fun h hlast => ?_, dropReturn_eq_self⟩
  obtain ⟨init, rfl⟩ := List.getLast?_eq_some_iff.1 hlast
  rw [dropReturn_append_return] at h
  have := congrArg List.length h
  simp at this

theorem mem_dropReturn {c : Char} (h : c ∈ dropReturn line) : c ∈ line := by
  by_cases hlast : line.getLast? = some '\r'
  · obtain ⟨init, rfl⟩ := List.getLast?_eq_some_iff.1 hlast
    rw [dropReturn_append_return] at h
    exact List.mem_append_left _ h
  · rwa [dropReturn_eq_self hlast] at h

/-- The lines of a text are its fields, an empty last one excepted, without carriage returns at
their ends. -/
theorem lines_ofText (text : Text) : ∃ kept,
    (splitOn '\n' text = kept ∧ kept.getLast? ≠ some [] ∨ splitOn '\n' text = kept ++ [[]]) ∧
      (ofText text).lines = kept.map dropReturn := by
  cases text with
  | nil => exact ⟨[], .inr rfl, rfl⟩
  | cons c text =>
    rw [ofText]
    simp only [List.isEmpty_cons, Bool.false_eq_true, if_false]
    split
    · next hlast =>
      obtain ⟨kept, hkept⟩ := List.getLast?_eq_some_iff.1 hlast
      exact ⟨kept, .inr hkept, by rw [hkept, List.dropLast_concat]⟩
    · next hlast => exact ⟨_, .inl ⟨rfl, hlast⟩, rfl⟩

/-- A line is a field of the text without the carriage return at its end. -/
theorem exists_field_of_mem_ofText {text : Text} (h : line ∈ (ofText text).lines) :
    ∃ field ∈ splitOn '\n' text, dropReturn field = line := by
  obtain ⟨kept, hfields, hlines⟩ := lines_ofText text
  rw [hlines] at h
  obtain ⟨field, hfield, rfl⟩ := List.mem_map.1 h
  refine ⟨field, ?_, rfl⟩
  rcases hfields with ⟨hfields, -⟩ | hfields
  exacts [hfields ▸ hfield, hfields ▸ List.mem_append_left _ hfield]

theorem newline_not_mem_ofText {text : Text} (h : line ∈ (ofText text).lines) : '\n' ∉ line := by
  obtain ⟨field, hfield, rfl⟩ := exists_field_of_mem_ofText h
  exact fun hc => not_mem_of_mem_splitOn hfield (mem_dropReturn hc)

/-- Without line feeds in the lines, the text has the lines as its fields. -/
theorem lines_ofText_toText (h : ∀ line ∈ s.lines, '\n' ∉ line) :
    ∃ kept, (s.lines = kept ∨ s.lines = kept ++ [[]]) ∧
      (ofText s.toText).lines = kept.map dropReturn := by
  by_cases hnil : s.lines = []
  · refine ⟨[], .inl hnil, ?_⟩
    simp [toText, hnil, ofText]
  · obtain ⟨kept, hfields, hlines⟩ := lines_ofText s.toText
    cases htrailing : s.trailingNewline with
    | true =>
      have htext : s.toText = join ['\n'] (s.lines ++ [[]]) := by
        rw [toText, htrailing, join_append_singleton hnil, List.append_nil]
        simp [hnil]
      have hsplit : splitOn '\n' s.toText = s.lines ++ [[]] := by
        rw [htext, splitOn_join (by simp)]
        intro field hfield
        rcases List.mem_append.1 hfield with hfield | hfield
        exacts [h field hfield, List.mem_singleton.1 hfield ▸ List.not_mem_nil]
      rw [hsplit] at hfields
      rcases hfields with ⟨hfields, hlast⟩ | hfields
      · rw [← hfields, List.getLast?_concat] at hlast
        exact absurd rfl hlast
      · exact ⟨kept, .inl (List.append_cancel_right hfields), hlines⟩
    | false =>
      have htext : s.toText = join ['\n'] s.lines := by
        rw [toText, htrailing]
        simp
      rw [htext, splitOn_join hnil h] at hfields
      rw [htext] at hlines ⊢
      exact ⟨kept, hfields.imp_left And.left, hlines⟩

/-- Exactly the sources come back whose lines do. -/
theorem reloads_iff : Reloads s ↔ ∀ line ∈ s.lines, IsSavable line := by
  constructor
  · intro h
    have hnewline : ∀ line ∈ s.lines, '\n' ∉ line := by
      intro line hline
      rcases h with h | h
      · exact newline_not_mem_ofText (h ▸ hline)
      · rw [h] at hline
        rcases List.mem_append.1 hline with hline | hline
        exacts [newline_not_mem_ofText hline, List.mem_singleton.1 hline ▸ List.not_mem_nil]
    obtain ⟨kept, hkept, hlines⟩ := lines_ofText_toText hnewline
    have hlength := congrArg List.length hlines
    rw [List.length_map] at hlength
    have hreturn : kept.map dropReturn = kept := by
      rw [← hlines]
      rcases h with h | h <;> rcases hkept with hkept | hkept
      · rw [h, hkept]
      · rw [h, hkept] at hlength
        simp at hlength
      · rw [h] at hkept
        rw [← hkept] at hlength
        simp at hlength
      · exact List.append_cancel_right (h.symm.trans hkept)
    intro line hline
    refine ⟨hnewline line hline, ?_⟩
    have hall : ∀ line ∈ kept, line.getLast? ≠ some '\r' := fun line hline =>
      dropReturn_eq_self_iff.1
        (List.map_inj_left.1 (hreturn.trans (List.map_id _).symm) line hline)
    rcases hkept with hkept | hkept
    · exact hall line (hkept ▸ hline)
    · rw [hkept] at hline
      rcases List.mem_append.1 hline with hline | hline
      · exact hall line hline
      · rw [List.mem_singleton.1 hline]
        exact nofun
  · intro h
    obtain ⟨kept, hkept, hlines⟩ := lines_ofText_toText fun line hline => (h line hline).1
    have hreturn : kept.map dropReturn = kept := by
      refine (List.map_congr_left fun line hline => dropReturn_eq_self (h line ?_).2).trans
        (List.map_id _)
      rcases hkept with hkept | hkept
      exacts [hkept ▸ hline, hkept ▸ List.mem_append_left _ hline]
    rw [Reloads, hlines, hreturn]
    exact hkept.imp_left Eq.symm

/-! ## The text that comes back -/

/-- The text without the carriage returns that stand right in front of a line feed or at its end.
Of several in a row, only the last one is such. -/
def withoutReturns : Text → Text
  | [] => []
  | c :: text =>
    if c = '\r' ∧ (text = [] ∨ text.head? = some '\n') then withoutReturns text
    else c :: withoutReturns text

theorem withoutReturns_eq_self {text : Text} (h : '\r' ∉ text) : withoutReturns text = text := by
  induction text with
  | nil => rfl
  | cons c text ih =>
    have hc : c ≠ '\r' := fun hc => h (hc ▸ List.mem_cons_self)
    rw [withoutReturns, if_neg fun hreturn => hc hreturn.1,
      ih fun hmem => h (List.mem_cons_of_mem c hmem)]

theorem dropReturn_cons (c : Char) (line : Text) :
    dropReturn (c :: line) = if c = '\r' ∧ line = [] then [] else c :: dropReturn line := by
  by_cases hlast : line.getLast? = some '\r'
  · obtain ⟨init, rfl⟩ := List.getLast?_eq_some_iff.1 hlast
    rw [if_neg (by simp), dropReturn_append_return, ← List.cons_append, dropReturn_append_return]
  · rw [dropReturn_eq_self hlast]
    split
    · next h =>
      obtain ⟨rfl, rfl⟩ := h
      rfl
    · next h =>
      refine dropReturn_eq_self fun hcons => ?_
      cases line with
      | nil => exact h ⟨Option.some.inj hcons, rfl⟩
      | cons d line => exact hlast (List.getLast?_cons_cons.symm.trans hcons)

/-- The first field is empty exactly if the text ends there or goes on with the separator. -/
theorem field_eq_nil_iff {sep : Char} {text field : Text} {fields : List Text}
    (h : splitOn sep text = field :: fields) :
    field = [] ↔ text = [] ∨ text.head? = some sep := by
  cases text with
  | nil =>
    obtain ⟨rfl, -⟩ := List.cons.inj h
    simp
  | cons c text =>
    obtain ⟨first, more, hrest⟩ := List.exists_cons_of_ne_nil (splitWhere_ne_nil (· == sep) text)
    rw [splitOn, splitWhere, hrest] at h
    by_cases hc : c = sep
    · rw [if_pos (beq_iff_eq.2 hc)] at h
      simp [hc, (List.cons.inj h).1.symm]
    · rw [if_neg (by simpa using hc)] at h
      simp [hc, (List.cons.inj h).1.symm]

/-- Field by field, it is the same carriage returns that are left out. -/
theorem join_map_dropReturn (text : Text) :
    join ['\n'] ((splitOn '\n' text).map dropReturn) = withoutReturns text := by
  induction text with
  | nil => rfl
  | cons c text ih =>
    obtain ⟨field, fields, hfields⟩ := List.exists_cons_of_ne_nil (splitOn_ne_nil '\n' text)
    by_cases hc : c = '\n'
    · subst hc
      have hsplit : splitOn '\n' ('\n' :: text) = [] :: splitOn '\n' text := rfl
      rw [hsplit, List.map_cons, join_cons _ _ (by simp [hfields]), ih, withoutReturns,
        if_neg fun h => absurd h.1 (by decide)]
      rfl
    · have hsplit : splitOn '\n' (c :: text) = (c :: field) :: fields := by
        rw [splitOn, splitWhere, if_neg (by simpa using hc)]
        exact congrArg (consFirst c) hfields
      rw [hfields, List.map_cons] at ih
      rw [hsplit, List.map_cons, dropReturn_cons, withoutReturns]
      by_cases hreturn : c = '\r' ∧ field = []
      · obtain ⟨rfl, rfl⟩ := hreturn
        rw [if_pos ⟨rfl, rfl⟩, if_pos ⟨rfl, (field_eq_nil_iff hfields).1 rfl⟩, ← ih]
        rfl
      · rw [if_neg hreturn, if_neg (by rwa [← field_eq_nil_iff hfields]), ← ih, join_cons_cons]

/-- From the lines comes back the text without the carriage returns at their ends. -/
theorem toText_ofText (text : Text) : (ofText text).toText = withoutReturns text := by
  rw [← join_map_dropReturn, ofText]
  simp only [List.isEmpty_iff]
  split
  · next hnil =>
    subst hnil
    rfl
  · next hne =>
    split
    · next hlast =>
      obtain ⟨kept, hkept⟩ := List.getLast?_eq_some_iff.1 hlast
      have hmap : kept.map dropReturn ≠ [] := by
        intro hnil
        refine hne ?_
        rw [← join_splitOn '\n' text, hkept, List.map_eq_nil_iff.1 hnil]
        rfl
      have hfields : (kept ++ [[]]).map dropReturn = kept.map dropReturn ++ [[]] := List.map_append
      rw [hkept, List.dropLast_concat, hfields, join_append_singleton hmap, List.append_nil, toText]
      simp only [Bool.true_and, Bool.not_eq_true', List.isEmpty_eq_false_iff, if_pos hmap]
    · rw [toText]
      simp

/-! ## Balance -/

theorem checkBalanceFrom_append {rules : BlockRules} (h : blockStep rules line = .stay)
    (index : Nat) (openers : List Nat) (lines : List Text) :
    checkBalanceFrom rules index openers (lines ++ [line]) =
      checkBalanceFrom rules index openers lines := by
  induction lines generalizing index openers with
  | nil => cases openers <;> simp [checkBalanceFrom, h]
  | cons first lines ih =>
    rw [List.cons_append]
    cases hstep : blockStep rules first with
    | leave => cases openers <;> simp [checkBalanceFrom, hstep, ih]
    | _ => simp [checkBalanceFrom, hstep, ih]

/-- A line that neither opens nor closes a block leaves the blocks as they are. -/
theorem checkBalance_pushLine {rules : BlockRules} (h : blockStep rules line = .stay) (s : Source) :
    (s.pushLine line).checkBalance rules = s.checkBalance rules :=
  checkBalanceFrom_append h 0 [] s.lines

/-- A source that comes back is balanced as it was, if an empty line neither opens nor closes a
block. -/
theorem checkBalance_of_reloads {rules : BlockRules} (hrules : blockStep rules [] = .stay)
    (h : Reloads s) : (ofText s.toText).checkBalance rules = s.checkBalance rules := by
  rcases h with h | h
  · rw [checkBalance, checkBalance, h]
  · rw [checkBalance, checkBalance, h, checkBalanceFrom_append hrules]

/-! ## Flat sources -/

variable {index count : Nat} {texts : List Text} {s' : Source}

/-- No line has a line break. -/
def IsFlat (s : Source) : Prop :=
  AllFlat s.lines

theorem IsFlat.reloads (h : s.IsFlat) : Reloads s :=
  reloads_iff.2 fun line hline =>
    ⟨(h line hline).1, fun hlast => (h line hline).2 (List.mem_of_getLast? hlast)⟩

theorem isFlat_ofText {text : Text} (h : '\r' ∉ text) : (ofText text).IsFlat := by
  intro line hline
  refine ⟨newline_not_mem_ofText hline, fun hc => ?_⟩
  obtain ⟨field, hfield, rfl⟩ := exists_field_of_mem_ofText hline
  exact h (subset_of_mem_splitWhere hfield (mem_dropReturn hc))

end DiagramEditor.Source
