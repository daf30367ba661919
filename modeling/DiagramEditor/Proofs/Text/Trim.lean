import DiagramEditor.Text.Basic
import Mathlib.Data.List.TakeWhile

/-!
# Trimming

Recognizers trim the line first, so the indent of a line and the blanks behind it never decide what
the line says. The lemmas here move blanks out of the way (`trim_append_of_isBlank`,
`trim_of_isBlank_append`) and say which texts trimming leaves alone (`trim_eq_self_iff`).

* `IsBlank`: nothing but blanks; the indent of a line is one such text;
* `IsTrimmed`: no blank at either end; what `trim` returns, and what it keeps.

There are twenty-five blanks, so what holds of each of them holds of a blank (`of_isSpace`).
-/

namespace DiagramEditor.Text

/-- The text holds nothing but blanks. -/
def IsBlank (s : Text) : Prop :=
  ∀ c ∈ s, isSpace c = true

/-- The text neither begins nor ends with a blank. -/
structure IsTrimmed (s : Text) : Prop where
  head : ∀ c ∈ s.head?, isSpace c = false
  last : ∀ c ∈ s.getLast?, isSpace c = false

/-- The numbers of the blanks. -/
def spaces : List Nat :=
  List.range' 9 5 ++ List.range' 0x2000 11 ++
    [0x20, 0x85, 0xA0, 0x1680, 0x2028, 0x2029, 0x202F, 0x205F, 0x3000]

theorem toNat_mem_spaces {c : Char} (h : isSpace c = true) : c.toNat ∈ spaces := by
  simp only [isSpace, Unicode.isSpace, Bool.or_eq_true, Bool.and_eq_true, decide_eq_true_eq,
    beq_iff_eq] at h
  simp only [spaces, List.mem_append, List.mem_range'_1, List.mem_cons, List.not_mem_nil]
  omega

/-- What holds of each of the blanks. -/
theorem of_isSpace {P : Char → Prop} {c : Char} (h : ∀ n ∈ spaces, P (Char.ofNat n))
    (hc : isSpace c = true) : P c := by
  rw [← Char.ofNat_toNat c]
  exact h _ (toNat_mem_spaces hc)

theorem isBlank_nil : IsBlank [] := by simp [IsBlank]

theorem isBlank_indent (s : Text) : IsBlank (indent s) :=
  fun _ hc => List.mem_takeWhile_imp hc

theorem IsBlank.append {w v : Text} (hw : IsBlank w) (hv : IsBlank v) : IsBlank (w ++ v) := by
  intro c hc
  rcases List.mem_append.1 hc with hc | hc
  exacts [hw c hc, hv c hc]

theorem isBlank_singleton_space : IsBlank [' '] := by
  intro c hc
  rw [List.mem_singleton.1 hc]
  decide

/-- No character has a property that the test of the whole text does not find. -/
theorem eq_false_of_any {p : Char → Bool} {s : Text} (h : s.any p = false) {c : Char} (hc : c ∈ s) :
    p c = false := by
  simpa using List.any_eq_false.1 h c hc

/-! ## Blanks in front -/

theorem trimStart_of_isBlank_append {w : Text} (hw : IsBlank w) (s : Text) :
    trimStart (w ++ s) = trimStart s :=
  List.dropWhile_append_of_pos hw

theorem trimStart_eq_nil_iff {s : Text} : trimStart s = [] ↔ IsBlank s :=
  List.dropWhile_eq_nil_iff

theorem trimStart_eq_self {s : Text} (h : ∀ c ∈ s.head?, isSpace c = false) :
    trimStart s = s := by
  cases s with
  | nil => rfl
  | cons c s => exact List.dropWhile_cons_of_neg (by simp [h c rfl])

theorem head?_trimStart (s : Text) : ∀ c ∈ (trimStart s).head?, isSpace c = false := by
  intro c hc
  have := List.head?_dropWhile_not isSpace s
  rw [trimStart] at hc
  rw [hc] at this
  simpa using this

theorem indent_of_isBlank_append {w : Text} (hw : IsBlank w) (s : Text) :
    indent (w ++ s) = w ++ indent s :=
  List.takeWhile_append_of_pos hw

theorem indent_eq_nil {s : Text} (h : ∀ c ∈ s.head?, isSpace c = false) : indent s = [] := by
  cases s with
  | nil => rfl
  | cons c s => exact List.takeWhile_cons_of_neg (by simp [h c rfl])

/-- Behind a front that is not blank, the end of the text is out of reach. -/
theorem trimStart_append {s : Text} (hs : ¬IsBlank s) (t : Text) :
    trimStart (s ++ t) = trimStart s ++ t := by
  rw [trimStart, List.dropWhile_append, if_neg]
  · rfl
  · rw [List.isEmpty_iff]
    exact fun h => hs (trimStart_eq_nil_iff.1 h)

/-! ## Blanks at the end -/

theorem trimEnd_append_of_isBlank (s : Text) {w : Text} (hw : IsBlank w) :
    trimEnd (s ++ w) = trimEnd s := by
  have h : ∀ c ∈ w.reverse, isSpace c = true := fun c hc => hw c (List.mem_reverse.1 hc)
  rw [trimEnd, trimEnd, dropEndWhile, dropEndWhile, List.reverse_append,
    List.dropWhile_append_of_pos h]

theorem dropEndWhile_eq_self {p : Char → Bool} {s : Text} (h : ∀ c ∈ s.getLast?, p c = false) :
    dropEndWhile p s = s := by
  rw [dropEndWhile]
  cases hs : s.reverse with
  | nil => simp [List.reverse_eq_nil_iff.1 hs]
  | cons c r =>
    have hc : s.getLast? = some c := by simp [← List.head?_reverse, hs]
    rw [List.dropWhile_cons_of_neg (by simp [h c hc]), ← hs, List.reverse_reverse]

theorem trimEnd_eq_self {s : Text} (h : ∀ c ∈ s.getLast?, isSpace c = false) : trimEnd s = s :=
  dropEndWhile_eq_self h

theorem dropEndWhile_append_takeWhile (p : Char → Bool) (s : Text) :
    dropEndWhile p s ++ (s.reverse.takeWhile p).reverse = s := by
  rw [dropEndWhile, ← List.reverse_append, List.takeWhile_append_dropWhile, List.reverse_reverse]

/-- Trimming takes blanks off the end and nothing else. -/
theorem exists_trimEnd_append (s : Text) : ∃ w, IsBlank w ∧ trimEnd s ++ w = s :=
  ⟨_, fun _ hc => List.mem_takeWhile_imp (List.mem_reverse.1 hc),
    dropEndWhile_append_takeWhile isSpace s⟩

theorem getLast?_trimEnd (s : Text) : ∀ c ∈ (trimEnd s).getLast?, isSpace c = false := by
  intro c hc
  rw [trimEnd, dropEndWhile, List.getLast?_reverse] at hc
  exact head?_trimStart s.reverse c hc

/-- In front of an end that is not blank, the start of the text is out of reach. -/
theorem trimEnd_append (s : Text) {t : Text} (ht : ¬IsBlank t) :
    trimEnd (s ++ t) = s ++ trimEnd t := by
  have hrev : ¬IsBlank t.reverse := fun h => ht fun c hc => h c (List.mem_reverse.2 hc)
  have := trimStart_append hrev s.reverse
  rw [trimStart, trimStart] at this
  rw [trimEnd, trimEnd, dropEndWhile, dropEndWhile, List.reverse_append, this,
    List.reverse_append, List.reverse_reverse]

/-- Behind a character that is no blank, the end is trimmed by itself. -/
theorem trimEnd_append_cons {c : Char} (hc : isSpace c = false) (s t : Text) :
    trimEnd (s ++ c :: t) = s ++ c :: trimEnd t := by
  rw [List.append_cons]
  by_cases ht : IsBlank t
  · have hlast : ∀ d ∈ (s ++ [c]).getLast?, isSpace d = false := by
      rw [List.getLast?_concat]
      rintro _ ⟨⟩
      exact hc
    have hnil : trimEnd t = [] := trimEnd_append_of_isBlank [] ht
    rw [trimEnd_append_of_isBlank _ ht, trimEnd_eq_self hlast, hnil]
  · rw [trimEnd_append _ ht, List.append_assoc, List.singleton_append]

/-! ## Both ends -/

theorem trim_of_isBlank_append {w : Text} (hw : IsBlank w) (s : Text) :
    trim (w ++ s) = trim s := by
  rw [trim, trim, trimStart_of_isBlank_append hw]

theorem trim_append_of_isBlank (s : Text) {w : Text} (hw : IsBlank w) :
    trim (s ++ w) = trim s := by
  by_cases hs : IsBlank s
  · rw [trim, trim, trimStart_eq_nil_iff.2 hs, trimStart_eq_nil_iff.2 (hs.append hw)]
  · rw [trim, trim, trimStart_append hs, trimEnd_append_of_isBlank _ hw]

theorem trim_eq_self {s : Text} (h : IsTrimmed s) : trim s = s := by
  rw [trim, trimStart_eq_self h.head, trimEnd_eq_self h.last]

/-- Trimming takes blanks off both ends and nothing else. -/
theorem exists_append_trim_append (s : Text) :
    ∃ w v, IsBlank w ∧ IsBlank v ∧ w ++ trim s ++ v = s := by
  obtain ⟨v, hv, h⟩ := exists_trimEnd_append (trimStart s)
  exact ⟨indent s, v, isBlank_indent s, hv, by
    rw [trim, List.append_assoc, h, indent_append_trimStart]⟩

theorem isTrimmed_trim (s : Text) : IsTrimmed (trim s) where
  head := by
    intro c hc
    obtain ⟨w, _, h⟩ := exists_trimEnd_append (trimStart s)
    apply head?_trimStart s c
    rw [← h, List.head?_append, show (trimEnd (trimStart s)).head? = some c from hc]
    rfl
  last := getLast?_trimEnd (trimStart s)

/-- A text that is not blank keeps the first character of its content. -/
theorem head?_trim (s : Text) : (trim s).head? = (trimStart s).head? := by
  obtain ⟨w, hw, h⟩ := exists_trimEnd_append (trimStart s)
  rw [trim]
  cases ht : trimEnd (trimStart s) with
  | cons c r => rw [← h, ht]; rfl
  | nil =>
    rw [ht, List.nil_append] at h
    cases hs : trimStart s with
    | nil => rfl
    | cons c r =>
      have hc := head?_trimStart s c (by rw [hs]; rfl)
      rw [hw c (h ▸ hs ▸ List.mem_cons_self)] at hc
      contradiction

theorem trim_eq_self_iff {s : Text} : trim s = s ↔ IsTrimmed s :=
  ⟨fun h => h ▸ isTrimmed_trim s, trim_eq_self⟩

theorem not_mem_trim {c : Char} {s : Text} (h : c ∉ s) : c ∉ trim s := by
  obtain ⟨w, v, -, -, hs⟩ := exists_append_trim_append s
  intro hc
  exact h (hs ▸ List.mem_append_left v (List.mem_append_right w hc))

theorem trim_trim (s : Text) : trim (trim s) = trim s :=
  trim_eq_self (isTrimmed_trim s)

/-- The characters that are no blanks, in order: what trimming never touches. -/
def dense (s : Text) : Text :=
  s.filter (!isSpace ·)

@[simp] theorem dense_nil : dense [] = [] := rfl

@[simp] theorem dense_append (s t : Text) : dense (s ++ t) = dense s ++ dense t :=
  List.filter_append ..

theorem dense_cons_of_isSpace {c : Char} (hc : isSpace c = true) (s : Text) :
    dense (c :: s) = dense s := by
  simp [dense, hc]

theorem dense_cons_of_not {c : Char} (hc : isSpace c = false) (s : Text) :
    dense (c :: s) = c :: dense s := by
  simp [dense, hc]

theorem dense_of_isBlank {w : Text} (hw : IsBlank w) : dense w = [] := by
  simpa [dense, IsBlank] using hw

theorem mem_dense {c : Char} {s : Text} : c ∈ dense s ↔ c ∈ s ∧ isSpace c = false := by
  simp [dense]

@[simp] theorem dense_trim (s : Text) : dense (trim s) = dense s := by
  obtain ⟨w, v, hw, hv, h⟩ := exists_append_trim_append s
  have hd := congrArg dense h
  rwa [dense_append, dense_append, dense_of_isBlank hw, dense_of_isBlank hv, List.append_nil,
    List.nil_append] at hd

end DiagramEditor.Text
