import DiagramEditor.Identifier.Basic
import DiagramEditor.Proofs.Text.Cut
import DiagramEditor.Proofs.Text.Trim

/-!
# Words and identifiers

A blank parts the words of a text and belongs to none of them (`words_append_cons`), and a text
without blanks is a word of its own (`words_eq_singleton`). The characters of identifiers are no
blanks, so an identifier stands inside of one word. The first word of a trimmed line is what it
begins with, up to a blank (`firstWord_of_front`).
-/

namespace DiagramEditor

open Text

variable {s t : Text} {c : Char}

namespace Text

theorem words_append_cons (s : Text) (hc : isSpace c = true) (t : Text) :
    words (s ++ c :: t) = words s ++ words t := by
  rw [words, words, words, splitWhere_eq_splitOnP, splitWhere_eq_splitOnP, splitWhere_eq_splitOnP,
    List.splitOnP_append_cons s t hc, List.filter_append]

theorem words_cons (hc : isSpace c = true) (s : Text) : words (c :: s) = words s :=
  words_append_cons [] hc s

theorem words_eq_singleton (hne : s ≠ []) (h : ∀ c ∈ s, isSpace c = false) : words s = [s] := by
  rw [words, splitWhere_eq_splitOnP, List.splitOnP_eq_singleton h]
  simp [hne]

theorem words_trimStart (s : Text) : words (trimStart s) = words s := by
  induction s with
  | nil => rfl
  | cons c s ih =>
    cases hc : isSpace c with
    | true => rw [words_cons hc, ← ih, trimStart, List.dropWhile_cons_of_pos hc, trimStart]
    | false => rw [trimStart_eq_self (by simpa using hc)]

/-- The first word begins with the first character that is no blank. -/
theorem exists_words_eq_cons (h : ∀ c ∈ s.head?, isSpace c = false) (hne : s ≠ []) :
    ∃ w rest, s = w ++ rest ∧ w.head? = s.head? ∧ (∀ c ∈ w, isSpace c = false) ∧
      (∀ c ∈ rest.head?, isSpace c = true) ∧ words s = w :: words rest := by
  have hs : s.takeWhile (!isSpace ·) ++ s.dropWhile (!isSpace ·) = s :=
    List.takeWhile_append_dropWhile
  have hword : ∀ c ∈ s.takeWhile (!isSpace ·), isSpace c = false := fun c hc => by
    simpa using List.mem_takeWhile_imp hc
  have hrest : ∀ c ∈ (s.dropWhile (!isSpace ·)).head?, isSpace c = true := by
    intro c hc
    have := List.head?_dropWhile_not (!isSpace ·) s
    rw [hc] at this
    simpa using this
  obtain ⟨d, r, rfl⟩ := List.exists_cons_of_ne_nil hne
  have hhead : ((d :: r).takeWhile (!isSpace ·)) = d :: r.takeWhile (!isSpace ·) :=
    List.takeWhile_cons_of_pos (by simpa using h)
  refine ⟨_, _, hs.symm, by rw [hhead]; rfl, hword, hrest, ?_⟩
  have hsingle := words_eq_singleton (by rw [hhead]; exact List.cons_ne_nil d _) hword
  cases hdrop : (d :: r).dropWhile (!isSpace ·) with
  | nil =>
    rw [hdrop, List.append_nil] at hs
    rw [hs] at hsingle ⊢
    exact hsingle
  | cons c t =>
    rw [hdrop] at hs hrest
    have hc := hrest c rfl
    conv_lhs => rw [← hs, words_append_cons _ hc, hsingle]
    rw [words_cons hc]
    rfl

theorem exists_mem_splitWhere {p : Char → Bool} (hc : c ∈ s) (hp : p c = false) :
    ∃ field ∈ splitWhere p s, c ∈ field := by
  induction s with
  | nil => cases hc
  | cons d s ih =>
    rw [splitWhere]
    split
    · next hd =>
      rcases List.mem_cons.1 hc with rfl | hc
      · rw [hp] at hd
        cases hd
      · obtain ⟨field, hfield, hmem⟩ := ih hc
        exact ⟨field, List.mem_cons_of_mem _ hfield, hmem⟩
    · obtain ⟨first, rest, hsplit⟩ := List.exists_cons_of_ne_nil (splitWhere_ne_nil p s)
      rw [hsplit] at ih ⊢
      rcases List.mem_cons.1 hc with rfl | hc
      · exact ⟨c :: first, List.mem_cons_self, List.mem_cons_self⟩
      · obtain ⟨field, hfield, hmem⟩ := ih hc
        rcases List.mem_cons.1 hfield with rfl | hfield
        · exact ⟨d :: field, List.mem_cons_self, List.mem_cons_of_mem d hmem⟩
        · exact ⟨field, List.mem_cons_of_mem _ hfield, hmem⟩

/-- Every character that is no blank stands in a word. -/
theorem exists_mem_words (hc : c ∈ s) (hspace : isSpace c = false) : ∃ w ∈ words s, c ∈ w := by
  obtain ⟨w, hw, hmem⟩ := exists_mem_splitWhere hc hspace
  refine ⟨w, List.mem_filter.2 ⟨hw, ?_⟩, hmem⟩
  simpa using List.ne_nil_of_mem hmem

/-- Words that are joined neither begin nor end with a blank. -/
theorem isTrimmed_join {sep : Text} {fields : List Text}
    (h : ∀ field ∈ fields, field ≠ [] ∧ IsTrimmed field) : IsTrimmed (join sep fields) := by
  induction fields with
  | nil => exact ⟨nofun, nofun⟩
  | cons field fields ih =>
    obtain ⟨⟨hne, htrim⟩, hrest⟩ := List.forall_mem_cons.1 h
    by_cases hnil : fields = []
    · rw [hnil, join_singleton]
      exact htrim
    · have hjoin : join sep fields ≠ [] := by
        obtain ⟨next, hnext⟩ := List.exists_mem_of_ne_nil fields hnil
        obtain ⟨c, hc⟩ := List.exists_mem_of_ne_nil next (hrest next hnext).1
        exact List.ne_nil_of_mem (mem_join_of_mem hnext hc)
      rw [join_cons _ _ hnil]
      constructor
      · obtain ⟨c, rest, rfl⟩ := List.exists_cons_of_ne_nil hne
        exact htrim.head
      · rw [List.getLast?_append, List.getLast?_eq_some_getLast hjoin, Option.some_or,
          ← List.getLast?_eq_some_getLast hjoin]
        exact (ih hrest).last

theorem head?_of_startsWithSpace {rest : Text} (h : startsWithSpace rest = true) :
    ∀ c ∈ rest.head?, isSpace c = true := by
  cases rest with
  | nil => cases h
  | cons c rest => simpa [startsWithSpace] using h

/-- The head is what stands in front of the first blank. -/
theorem headAndRest_append_cons {word : Text} (hword : ∀ d ∈ word, isSpace d = false)
    (hc : isSpace c = true) (rest : Text) : headAndRest (word ++ c :: rest) = (word, trim (c :: rest)) := by
  have hall : ∀ d ∈ word, (!isSpace d) = true := fun d hd => by rw [hword d hd]; rfl
  rw [headAndRest, List.takeWhile_append_of_pos hall, List.dropWhile_append_of_pos hall,
    List.takeWhile_cons_of_neg (by simp [hc]), List.dropWhile_cons_of_neg (by simp [hc]), List.append_nil]

theorem firstWord_of_front {word rest : Text} (hne : word ≠ [])
    (hword : ∀ c ∈ word, isSpace c = false) (hrest : ∀ c ∈ rest.head?, isSpace c = true) :
    firstWord (word ++ rest) = word := by
  cases rest with
  | nil => rw [List.append_nil, firstWord, words_eq_singleton hne hword]; rfl
  | cons c rest =>
    rw [firstWord, words_append_cons _ (hrest c rfl), words_eq_singleton hne hword]
    rfl

/-- The trimmed line begins with its first word, and a blank stands behind it. -/
theorem exists_firstWord_append (h : trim s ≠ []) : ∃ rest,
    trim s = firstWord (trim s) ++ rest ∧ firstWord (trim s) ≠ [] ∧
      (∀ c ∈ rest.head?, isSpace c = true) := by
  obtain ⟨w, rest, hs, hhead, -, hrest, hwords⟩ :=
    exists_words_eq_cons (isTrimmed_trim s).head h
  have hfirst : firstWord (trim s) = w := by rw [firstWord, hwords]; rfl
  refine ⟨rest, by rw [hfirst]; exact hs, ?_, hrest⟩
  rintro hnil
  rw [hfirst] at hnil
  rw [hnil, eq_comm, List.head?_nil, List.head?_eq_none_iff] at hhead
  exact h hhead

end Text

namespace Identifier

theorem isIdentChar_of_isSpace (h : isSpace c = true) : isIdentChar c = false :=
  of_isSpace (P := fun c => isIdentChar c = false) (by decide +kernel) h

theorem isSpace_of_isIdentChar (h : isIdentChar c = true) : isSpace c = false := by
  cases hc : isSpace c with
  | false => rfl
  | true => rw [isIdentChar_of_isSpace hc] at h; contradiction

theorem isSpace_of_isEntityChar (h : isEntityChar c = true) : isSpace c = false := by
  rcases Bool.or_eq_true_iff.1 h with h | h
  · exact isSpace_of_isIdentChar h
  · rw [beq_iff_eq.1 h]
    decide

theorem isIdentChar_of_isDigit (h : c.isDigit = true) : isIdentChar c = true := by
  have hdigits : ∀ n ∈ List.range' 48 10, isIdentChar (Char.ofNat n) = true := by
    decide +kernel
  rw [← Char.ofNat_toNat c]
  apply hdigits
  rw [List.mem_range'_1]
  simp only [Char.isDigit, Bool.and_eq_true, decide_eq_true_eq, ge_iff_le, UInt32.le_iff_toNat_le] at h
  exact ⟨h.1, Nat.lt_succ_of_le h.2⟩

end Identifier

end DiagramEditor
