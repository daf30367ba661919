import DiagramEditor.Proofs.Edit.Basic
import DiagramEditor.Proofs.Source.Renumber

/-!
# Lines that are there

An edit goes by numbers of lines: those that a view remembers, and others that it reckons from them
while lines come and go. A step that is `InRange` asks for no line that is not there. A sequence of
steps is in range if each step is, whatever the steps before it left behind (`InRange.bind`), and
for that each operation on lines says how long the source is afterwards (`length_insertLines` and
its siblings).
-/

namespace DiagramEditor

open Source

variable {s s' : Source} {i count : Nat} {text : Text} {texts : List Text}

namespace Source

@[simp] theorem length_pushLine (text : Text) (s : Source) :
    (s.pushLine text).length = s.length + 1 :=
  List.length_append

/-- Whatever is deleted, the lines in front of it stay. -/
theorem le_length_deleteLineSet {indices : List Nat} (hi : i ≤ s.length)
    (h : ∀ j ∈ indices, i ≤ j) : i ≤ (s.deleteLineSet indices).length := by
  have hkeep : ∀ j < i, (!indices.contains j) = true := by
    intro j hj
    rw [Bool.not_eq_true', ← Bool.not_eq_true, List.contains_iff_mem]
    exact fun hmem => absurd (h j hmem) (Nat.not_le.2 hj)
  have hfront := congrArg List.length (take_map_filter hkeep hi)
  rw [← lines_deleteLineSet, List.length_take, List.length_take_of_le hi] at hfront
  exact hfront.symm.trans_le (Nat.min_le_right ..)

end Source

namespace Edit

variable {α β : Type} {x : Except EditError α} {f : α → Except EditError β}

/-- The edit is refused for a line that is not there. -/
def isOutOfRange : EditError → Bool
  | .source (.lineOutOfRange ..) => true
  | _ => false

/-- The step is not refused for a line that is not there. -/
def InRange (x : Except EditError α) : Prop :=
  ∀ i n, x ≠ .error (.source (.lineOutOfRange i n))

namespace InRange

theorem ok (a : α) : InRange (.ok a) :=
  fun _ _ => nofun

theorem error {e : EditError} (h : isOutOfRange e = false) :
    InRange (.error e : Except EditError α) := by
  intro i n heq
  cases heq
  cases h

/-- A step that is refused for another reason, seen from another type of results. -/
theorem of_eq_error {e : EditError} (hx : InRange x) (he : x = .error e) :
    InRange (.error e : Except EditError β) :=
  fun i n heq => hx i n (he.trans (congrArg _ (Except.error.inj heq)))

theorem bind (hx : InRange x) (hf : ∀ a, x = .ok a → InRange (f a)) : InRange (x >>= f) := by
  cases x with
  | ok a => exact hf a rfl
  | error e => exact hx.of_eq_error rfl

theorem map {f : α → β} (hx : InRange x) : InRange (x.map f) := by
  cases x with
  | ok a => exact ok _
  | error e => exact hx.of_eq_error rfl

theorem mapM {l : List α} (hf : ∀ a ∈ l, InRange (f a)) : InRange (l.mapM f) := by
  induction l with
  | nil => exact ok _
  | cons a l ih =>
    rw [List.mapM_cons]
    refine (hf a List.mem_cons_self).bind fun _ _ => ?_
    exact (ih fun a' ha' => hf a' (List.mem_cons_of_mem a ha')).bind fun _ _ => ok _

theorem forM {f : α → Except EditError Unit} {l : List α} (hf : ∀ a ∈ l, InRange (f a)) :
    InRange (l.forM f) := by
  induction l with
  | nil => exact ok _
  | cons a l ih =>
    exact (hf a List.mem_cons_self).bind fun _ _ => ih fun a' ha' => hf a' (List.mem_cons_of_mem a ha')

/-- A run of steps that keep something by which every step is in range. -/
theorem foldlM {f : β → α → Except EditError β} {P : β → Prop} {l : List α} {b : β} (hb : P b)
    (hf : ∀ a ∈ l, ∀ b, P b → InRange (f b a) ∧ Ensures (f b a) P) : InRange (l.foldlM f b) := by
  induction l generalizing b with
  | nil => exact ok _
  | cons a l ih =>
    obtain ⟨hrange, hensures⟩ := hf a List.mem_cons_self b hb
    rw [List.foldlM_cons]
    exact hrange.bind fun b' hb' =>
      ih (hensures b' hb') fun a' ha' => hf a' (List.mem_cons_of_mem a ha')

end InRange

/-! ## Operations on lines -/

theorem lineAt_inRange (h : i < s.length) : InRange (lineAt i s) := by
  rw [lineAt, Source.line?, List.getElem?_eq_getElem h]
  exact .ok _

theorem replaceLine_inRange (h : i < s.length) : InRange (replaceLine i text s) := by
  rw [replaceLine, Source.replaceLine, if_pos h]
  exact .ok _

theorem insertLines_inRange (h : i ≤ s.length) : InRange (insertLines i texts s) := by
  rw [insertLines, Source.insertLines, if_pos h]
  exact .ok _

theorem deleteLines_inRange (h : i + count ≤ s.length) : InRange (deleteLines i count s) := by
  rw [deleteLines, Source.deleteLines, if_pos (Nat.le_trans (Nat.min_le_left ..) h)]
  exact .ok _

theorem length_replaceLine (h : replaceLine i text s = .ok s') : s'.length = s.length := by
  obtain ⟨-, rfl⟩ := replaceLine_eq_ok h
  exact List.length_set

theorem length_insertLines (h : insertLines i texts s = .ok s') :
    s'.length = s.length + texts.length := by
  obtain ⟨hle, rfl⟩ := insertLines_eq_ok h
  simp only [Source.length, List.length_append, List.length_take, List.length_drop]
  omega

/-- A deletion leaves the lines in front, and takes no more lines than it is told to. -/
theorem le_length_deleteLines (hi : i ≤ s.length) (h : deleteLines i count s = .ok s') :
    i ≤ s'.length ∧ s.length ≤ s'.length + count := by
  rw [deleteLines, Source.deleteLines] at h
  split at h
  · cases h
    simp only [Source.length, List.length_append, List.length_take, List.length_drop] at hi ⊢
    omega
  · cases h

/-! ## Other steps -/

theorem requireIdentifier_inRange {check : Except IdentifierError Unit} {id : Text} :
    InRange (requireIdentifier check id) := by
  cases check with
  | ok => exact .ok _
  | error => exact .error rfl

theorem ensureDeclaration_inRange {kind : Kind} {declaration : Option Nat} :
    InRange (ensureDeclaration kind declaration s) := by
  cases declaration with
  | some => exact .ok _
  | none =>
    rw [ensureDeclaration]
    exact .map (insertLines_inRange (Nat.zero_le _))

/-- A block error is about a block, so no check of the balance asks for a line. -/
theorem checkBalance_inRange (rules : BlockRules) (s : Source) :
    InRange ((s.checkBalance rules).mapError .source) := by
  have hfrom : ∀ (lines : List Text) (index : Nat) (openers : List Nat),
      InRange ((checkBalanceFrom rules index openers lines).mapError EditError.source) := by
    intro lines
    induction lines with
    | nil =>
      intro index openers
      cases openers with
      | nil => exact .ok _
      | cons => exact .error rfl
    | cons line lines ih =>
      intro index openers
      cases hstep : blockStep rules line with
      | enter =>
        simp only [checkBalanceFrom, hstep]
        exact ih _ _
      | stay =>
        simp only [checkBalanceFrom, hstep]
        exact ih _ _
      | leave =>
        cases openers <;> simp only [checkBalanceFrom, hstep]
        exacts [.error rfl, ih _ _]
  exact hfrom s.lines 0 []

end Edit

end DiagramEditor
