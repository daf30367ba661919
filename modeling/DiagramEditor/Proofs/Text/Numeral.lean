import DiagramEditor.Text.Numeral
import DiagramEditor.Proofs.Text.Trim

/-!
# Numerals read back

The digits of a number denote it (`readIndex?_ofNat`), and they hold neither blanks nor commas, so a
list of numbers comes back from its written form as well.
-/

namespace DiagramEditor.Text

variable {n bound : Nat} {c : Char}

theorem isDigit_of_mem_ofNat (h : c ∈ ofNat n) : c.isDigit = true :=
  Nat.isDigit_of_mem_toDigits (by decide) (by decide) h

theorem ofNat_ne_nil (n : Nat) : ofNat n ≠ [] :=
  Nat.toDigits_ne_nil

theorem digitsValue?_ofNat (n : Nat) : digitsValue? (ofNat n) = some n := by
  have hempty : (ofNat n).isEmpty = false := by simpa using ofNat_ne_nil n
  have hall : (ofNat n).all Char.isDigit = true :=
    List.all_eq_true.2 fun _ h => isDigit_of_mem_ofNat h
  rw [digitsValue?, hempty, hall, ← Nat.ofDigitChars_eq_foldl, ofNat,
    Nat.ofDigitChars_ten_toDigits]
  rfl

theorem ofNat_injective : Function.Injective ofNat := by
  intro m n h
  have hvalue := congrArg digitsValue? h
  rw [digitsValue?_ofNat, digitsValue?_ofNat] at hvalue
  exact Option.some.inj hvalue

theorem readNat?_ofNat (h : n < bound) : readNat? bound (ofNat n) = some n := by
  have hplus : ∀ rest, ofNat n ≠ '+' :: rest := by
    intro rest heq
    have : '+' ∈ ofNat n := heq ▸ List.mem_cons_self
    exact absurd (isDigit_of_mem_ofNat this) (by decide)
  rw [readNat?, digitsValue?_ofNat]
  · simp [h]
  · exact hplus

/-- An index is read back from its digits. -/
theorem readIndex?_ofNat (h : n < indexBound) : readIndex? (ofNat n) = some n :=
  readNat?_ofNat h

/-- A numeral holds digits only, and perhaps a plus sign. -/
theorem eq_plus_or_isDigit_of_readIndex? {s : Text} (h : readIndex? s = some n) (hc : c ∈ s) :
    c = '+' ∨ c.isDigit = true := by
  have hdigits : ∀ {digits : Text}, (digitsValue? digits).filter (· < indexBound) = some n →
      ∀ c ∈ digits, c.isDigit = true := by
    intro digits h
    obtain ⟨hvalue, -⟩ := Option.filter_eq_some_iff.1 h
    rw [digitsValue?] at hvalue
    split at hvalue
    · contradiction
    · next hgood => simpa using (not_or.1 (mt Bool.or_eq_true_iff.2 hgood)).2
  rw [readIndex?, readNat?.eq_def] at h
  dsimp only at h
  split at h
  · rcases List.mem_cons.1 hc with rfl | hc
    exacts [.inl rfl, .inr (hdigits h c hc)]
  · exact .inr (hdigits h c hc)

/-- A number that was read is below the bound. -/
theorem lt_of_readIndex? {s : Text} (h : readIndex? s = some n) : n < indexBound := by
  obtain ⟨-, hn⟩ := Option.filter_eq_some_iff.1 h
  simpa using hn

theorem isSpace_of_isDigit (h : c.isDigit = true) : isSpace c = false := by
  have hn : 48 ≤ c.toNat ∧ c.toNat ≤ 57 := by
    simpa [Char.isDigit, Char.le_def, UInt32.le_iff_toNat_le] using h
  simp only [isSpace, Unicode.isSpace, Bool.or_eq_false_iff, Bool.and_eq_false_iff,
    beq_eq_false_iff_ne, decide_eq_false_iff_not]
  omega

theorem isTrimmed_ofNat (n : Nat) : IsTrimmed (ofNat n) where
  head _ hc := isSpace_of_isDigit (isDigit_of_mem_ofNat (List.mem_of_mem_head? hc))
  last _ hc := isSpace_of_isDigit (isDigit_of_mem_ofNat (List.mem_of_mem_getLast? hc))

end DiagramEditor.Text
