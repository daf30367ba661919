import DiagramEditor.Proofs.Source.Lines
import DiagramEditor.Source.Block
import Mathlib.Data.Option.Basic

/-!
# Nesting of blocks

Where the blocks of a source are balanced, the lines rise as much as they fall
(`rises_of_checkBalanceFrom`), and so do the lines that may take the place of some of them
(`rises_eq_of_checkBalance`). A block in which nothing else is opened ends at the first line that closes
one (`blockAt?_eq`).
-/

namespace DiagramEditor.Source

variable {rules : BlockRules} {index : Nat} {openers : List Nat} {line closer : Text}
  {lines more : List Text}

theorem blockStep_eq_enter_iff :
    blockStep rules line = .enter ↔ rules.opens (Text.trim line) = true := by
  rw [blockStep]
  split
  · next hopens => simp [hopens]
  · next hopens => split <;> simp [hopens]

theorem blockStep_eq_leave_iff : blockStep rules line = .leave ↔
    rules.opens (Text.trim line) = false ∧ rules.closes (Text.trim line) = true := by
  rw [blockStep]
  split
  · next hopens => simp [hopens]
  · next hopens => split <;> simp_all

theorem blockStep_eq_stay (hopens : rules.opens (Text.trim line) = false)
    (hcloses : rules.closes (Text.trim line) = false) : blockStep rules line = .stay := by
  simp [blockStep, hopens, hcloses]

/-- Lines that open and close the same blocks are checked alike. -/
theorem checkBalanceFrom_congr {lines' : List Text}
    (h : List.Forall₂ (fun a b => blockStep rules b = blockStep rules a) lines lines')
    (index : Nat) (openers : List Nat) :
    checkBalanceFrom rules index openers lines' = checkBalanceFrom rules index openers lines := by
  induction h generalizing index openers with
  | nil => rfl
  | @cons a b lines lines' hab _ ih =>
    cases hstep : blockStep rules a <;> cases openers <;>
      simp only [checkBalanceFrom, hab, hstep, ih]

/-- Behind balanced lines the check starts anew. -/
theorem checkBalanceFrom_append_of_ok (h : checkBalanceFrom rules index openers lines = .ok ())
    (more : List Text) : checkBalanceFrom rules index openers (lines ++ more) =
      checkBalanceFrom rules (index + lines.length) [] more := by
  induction lines generalizing index openers with
  | nil =>
    cases openers with
    | nil => rfl
    | cons start outer => cases h
  | cons line lines ih =>
    have hindex : index + (line :: lines).length = index + 1 + lines.length := by
      rw [List.length_cons, Nat.add_right_comm, Nat.add_assoc]
    rw [hindex, List.cons_append]
    cases hstep : blockStep rules line with
    | leave =>
      cases openers with
      | nil => simp [checkBalanceFrom, hstep] at h
      | cons start outer =>
        simp only [checkBalanceFrom, hstep] at h ⊢
        exact ih h
    | _ =>
      simp only [checkBalanceFrom, hstep] at h ⊢
      exact ih h

/-- Whether lines are balanced does not depend on their numbers. -/
theorem checkBalanceFrom_of_length {index' : Nat} {openers' : List Nat}
    (h : checkBalanceFrom rules index openers lines = .ok ())
    (hlength : openers'.length = openers.length) :
    checkBalanceFrom rules index' openers' lines = .ok () := by
  induction lines generalizing index openers index' openers' with
  | nil =>
    cases openers with
    | nil => rw [List.length_eq_zero_iff.1 hlength]; rfl
    | cons start outer => cases h
  | cons line lines ih =>
    cases hstep : blockStep rules line with
    | enter =>
      simp only [checkBalanceFrom, hstep] at h ⊢
      exact ih h (congrArg (· + 1) hlength)
    | leave =>
      cases openers with
      | nil => simp [checkBalanceFrom, hstep] at h
      | cons start outer =>
        obtain ⟨start', outer', rfl⟩ := List.exists_cons_of_length_eq_add_one hlength
        simp only [checkBalanceFrom, hstep] at h ⊢
        exact ih h (Nat.succ.inj hlength)
    | stay =>
      simp only [checkBalanceFrom, hstep] at h ⊢
      exact ih h hlength

/-! ## Rises -/

/-- By how much the line changes the depth. -/
def rise (rules : BlockRules) (line : Text) : Int :=
  match blockStep rules line with
  | .enter => 1
  | .leave => -1
  | .stay => 0

/-- By how much the lines change the depth. -/
def rises (rules : BlockRules) : List Text → Int
  | [] => 0
  | line :: lines => rise rules line + rises rules lines

theorem rises_append (lines more : List Text) :
    rises rules (lines ++ more) = rises rules lines + rises rules more := by
  induction lines with
  | nil => exact (Int.zero_add _).symm
  | cons line lines ih => rw [List.cons_append, rises, ih, rises, Int.add_assoc]

theorem rises_singleton (line : Text) : rises rules [line] = rise rules line :=
  Int.add_zero _

/-- A line that does not close does not fall. -/
theorem rise_nonneg (rules : BlockRules) (h : rules.closes (Text.trim line) = false) :
    0 ≤ rise rules line := by
  rw [rise]
  split
  · decide
  · next hleave => rw [(blockStep_eq_leave_iff.1 hleave).2] at h; cases h
  · decide

theorem rise_of_leave (h : blockStep rules line = .leave) : rise rules line = -1 := by
  rw [rise, h]

/-- A line changes the number of open blocks by what it rises. -/
theorem checkBalanceFrom_cons (h : checkBalanceFrom rules index openers (line :: lines) = .ok ()) :
    ∃ openers', checkBalanceFrom rules (index + 1) openers' lines = .ok () ∧
      (openers'.length : Int) = openers.length + rise rules line := by
  cases hstep : blockStep rules line with
  | enter =>
    simp only [checkBalanceFrom, hstep] at h
    exact ⟨_, h, by rw [rise, hstep, List.length_cons]; rfl⟩
  | leave =>
    cases openers with
    | nil => simp [checkBalanceFrom, hstep] at h
    | cons start outer =>
      simp only [checkBalanceFrom, hstep] at h
      refine ⟨_, h, ?_⟩
      rw [rise_of_leave hstep, List.length_cons]
      omega
  | stay =>
    simp only [checkBalanceFrom, hstep] at h
    exact ⟨_, h, by rw [rise, hstep]; rfl⟩

/-- The check goes on behind some lines with the blocks that are open there. -/
theorem checkBalanceFrom_of_append (h : checkBalanceFrom rules index openers (lines ++ more) = .ok ()) :
    ∃ index' openers', checkBalanceFrom rules index' openers' more = .ok () ∧
      (openers'.length : Int) = openers.length + rises rules lines := by
  induction lines generalizing index openers with
  | nil => exact ⟨index, openers, h, (Int.add_zero _).symm⟩
  | cons line lines ih =>
    obtain ⟨openers', h, hlength⟩ := checkBalanceFrom_cons h
    obtain ⟨index', openers'', h, hlength'⟩ := ih h
    exact ⟨index', openers'', h, by rw [rises]; omega⟩

/-- The lines behind those that have opened some blocks close them. -/
theorem rises_of_checkBalanceFrom (h : checkBalanceFrom rules index openers lines = .ok ()) :
    openers.length + rises rules lines = 0 := by
  rw [← List.append_nil lines] at h
  obtain ⟨index', openers', h, hlength⟩ := checkBalanceFrom_of_append h
  cases openers' with
  | nil => exact hlength.symm
  | cons start outer => cases h

/-- Lines that take the place of others in a balanced source rise as much as those. -/
theorem rises_eq_of_checkBalance {s s' : Source} {i j : Nat} (h : s.checkBalance rules = .ok ())
    (h' : s'.checkBalance rules = .ok ()) (hj : i ≤ j)
    (hlines : s'.lines = s.lines.take i ++ more ++ s.lines.drop j) :
    rises rules more = rises rules ((s.lines.take j).drop i) := by
  -- Both sources rise by nothing in all, and they have the lines around in common.
  have hsplit : s.lines = s.lines.take i ++ (s.lines.take j).drop i ++ s.lines.drop j := by
    rw [take_append_drop_take hj, List.take_append_drop]
  have hrises := rises_of_checkBalanceFrom h
  have hrises' := rises_of_checkBalanceFrom h'
  rw [hsplit, rises_append, rises_append] at hrises
  rw [hlines, rises_append, rises_append] at hrises'
  omega

/-! ## Ends of blocks -/

theorem linesToClose?_append (hlines : ∀ line ∈ lines, blockStep rules line = .stay)
    (hcloser : blockStep rules closer = .leave) (more : List Text) :
    linesToClose? rules 1 (lines ++ closer :: more) = some lines.length := by
  induction lines with
  | nil => rw [List.nil_append, linesToClose?, hcloser]; rfl
  | cons line lines ih =>
    obtain ⟨hline, hlines⟩ := List.forall_mem_cons.1 hlines
    rw [List.cons_append, linesToClose?, hline]
    rw [ih hlines]
    rfl

/-- A block in which nothing else is opened ends at the first line that closes one. -/
theorem blockAt?_eq {s : Source} (hlines : s.lines.drop index = line :: (lines ++ closer :: more))
    (hopens : rules.opens (Text.trim line) = true)
    (hstay : ∀ line ∈ lines, blockStep rules line = .stay)
    (hcloser : blockStep rules closer = .leave) :
    s.blockAt? rules index = some ⟨index, index + 1 + lines.length⟩ := by
  have hline : s.line? index = some line := by
    rw [line?, ← List.head?_drop, hlines]
    rfl
  have hn : linesToClose? rules 0 (s.lines.drop index) = some (lines.length + 1) := by
    rw [hlines, linesToClose?, blockStep_eq_enter_iff.2 hopens]
    exact congrArg (Option.map (· + 1)) (linesToClose?_append hstay hcloser more)
  rw [blockAt?, hline, hn, Nat.add_assoc, Nat.add_comm 1]
  simp [hopens]

end DiagramEditor.Source
