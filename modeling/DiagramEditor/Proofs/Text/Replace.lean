import DiagramEditor.Proofs.Text.Quoted
import DiagramEditor.Proofs.Text.Words
import Mathlib.Data.List.Basic

/-!
# Writing another word

Replacing a word goes over the text piece by piece (`pieces`): a whole word that stands outside of
double quotes is one piece, and every other character is a piece of its own. The new text has the new
word in place of each piece that is the old one (`replaceWord_eq`), so a cut beside a character of no
word cuts the work in two (`replaceFrom_append`). Nothing changes where the old word is not among the
words (`replaceFrom_eq_self`), and blanks and fields come out where they were (`trim_replaceWord`,
`words_replaceFrom`).
-/

namespace DiagramEditor.Text

open Identifier

variable {s t w v word old new name : Text} {c : Char} {q : Bool}

/-! ## Pieces -/

/-- A whole word outside of double quotes, or any other character. -/
inductive Piece where
  | word (w : Text)
  | sign (c : Char)
deriving DecidableEq

/-- The word as a piece; an empty word is none. -/
def wordPieces (word : Text) : List Piece :=
  if word.isEmpty then [] else [.word word]

/-- The pieces of the text, where `q` says whether it starts inside double quotes and `word` is the
part of a word that stands in front of it. -/
def piecesFrom : (q : Bool) → (word : Text) → Text → List Piece
  | _, word, [] => wordPieces word
  | q, word, c :: s =>
    if isWordPart c && !q then piecesFrom q (word ++ [c]) s
    else wordPieces word ++ .sign c :: piecesFrom (if c = '"' then !q else q) [] s

namespace Piece

/-- The word that the piece is. -/
def word? : Piece → Option Text
  | .word w => some w
  | .sign _ => none

/-- How the piece is written when words are changed by `f`. -/
def text (f : Text → Text) : Piece → Text
  | .word w => f w
  | .sign c => [c]

end Piece

/-- The whole words outside of double quotes, where `q` says whether the text starts inside. -/
def outerWordsFrom (q : Bool) (s : Text) : List Text :=
  (piecesFrom q [] s).filterMap Piece.word?

/-- The whole words outside of double quotes. -/
def outerWords (s : Text) : List Text :=
  outerWordsFrom false s

/-- The name, or the new one in place of the old one. -/
def renamed (old new name : Text) : Text :=
  if name = old then new else name

theorem isWordPart_of_isSpace (h : isSpace c = true) : isWordPart c = false :=
  of_isSpace (P := fun c => isWordPart c = false) (by decide +kernel) h

theorem isWordPart_quote : isWordPart '"' = false := by decide

@[simp] theorem wordPieces_nil : wordPieces [] = [] := rfl

theorem piecesFrom_sign (hc : (isWordPart c && !q) = false) (word s : Text) :
    piecesFrom q word (c :: s) =
      wordPieces word ++ .sign c :: piecesFrom (if c = '"' then !q else q) [] s := by
  rw [piecesFrom, hc]
  rfl

theorem piecesFrom_wordPart (hc : isWordPart c = true) (word s : Text) :
    piecesFrom false word (c :: s) = piecesFrom false (word ++ [c]) s := by
  rw [piecesFrom, hc]
  rfl

/-- In front of a character of no word the word that has been read is whole. -/
theorem piecesFrom_of_head (h : ∀ c ∈ s.head?, isWordPart c = false) (q : Bool) (word : Text) :
    piecesFrom q word s = wordPieces word ++ piecesFrom q [] s := by
  cases s with
  | nil => simp [piecesFrom]
  | cons c s =>
    have hc : (isWordPart c && !q) = false := by rw [h c rfl, Bool.false_and]
    rw [piecesFrom_sign hc, piecesFrom_sign hc]
    rfl

/-- A cut in front of a character of no word. -/
theorem piecesFrom_append (h : ∀ c ∈ t.head?, isWordPart c = false) (q : Bool) (word s : Text) :
    piecesFrom q word (s ++ t) = piecesFrom q word s ++ piecesFrom (quotedAfter q s) [] t := by
  induction s generalizing q word with
  | nil => exact piecesFrom_of_head h q word
  | cons c s ih =>
    rw [List.cons_append, piecesFrom, piecesFrom]
    split
    · next hc =>
      have hquote : c ≠ '"' := by
        rintro rfl
        rw [isWordPart_quote] at hc
        cases hc
      rw [ih, quotedAfter_cons q hquote]
    · rw [ih, List.append_assoc, List.cons_append]
      by_cases hquote : c = '"'
      · subst hquote
        rfl
      · rw [if_neg hquote, quotedAfter_cons q hquote]

theorem piecesFrom_isBlank (hw : IsBlank w) (q : Bool) (t : Text) :
    piecesFrom q [] (w ++ t) = w.map .sign ++ piecesFrom q [] t := by
  induction w with
  | nil => rfl
  | cons c w ih =>
    have hspace := hw c List.mem_cons_self
    have hquote : c ≠ '"' := by
      rintro rfl
      exact absurd hspace (by decide)
    rw [List.cons_append, piecesFrom_sign (by rw [isWordPart_of_isSpace hspace]; rfl), if_neg hquote,
      ih fun d hd => hw d (List.mem_cons_of_mem c hd)]
    rfl

/-- Characters of a word are read into it. -/
theorem piecesFrom_of_forall (h : ∀ c ∈ s, isWordPart c = true) (word : Text) :
    piecesFrom false word s = wordPieces (word ++ s) := by
  induction s generalizing word with
  | nil => rw [List.append_nil, piecesFrom]
  | cons c s ih =>
    rw [piecesFrom_wordPart (h c List.mem_cons_self), ih fun d hd => h d (List.mem_cons_of_mem c hd),
      List.append_assoc, List.singleton_append]

/-- A piece that is a word is one. -/
theorem forall_mem_piecesFrom (hword : ∀ c ∈ word, isWordPart c = true) :
    ∀ w, .word w ∈ piecesFrom q word s → w ≠ [] ∧ ∀ c ∈ w, isWordPart c = true := by
  have hwhole : ∀ {word : Text}, (∀ c ∈ word, isWordPart c = true) →
      ∀ w, Piece.word w ∈ wordPieces word → w ≠ [] ∧ ∀ c ∈ w, isWordPart c = true := by
    intro word hword w hw
    rw [wordPieces] at hw
    split at hw
    · cases hw
    · next hne =>
      cases List.mem_singleton.1 hw
      exact ⟨by simpa using hne, hword⟩
  induction s generalizing q word with
  | nil => exact hwhole hword
  | cons c s ih =>
    intro w hw
    rw [piecesFrom] at hw
    split at hw
    · next hc =>
      refine ih (fun d hd => ?_) w hw
      rcases List.mem_append.1 hd with hd | hd
      · exact hword d hd
      · rw [List.mem_singleton.1 hd]
        exact (Bool.and_eq_true_iff.1 hc).1
    · rcases List.mem_append.1 hw with hw | hw
      · exact hwhole hword w hw
      · rcases List.mem_cons.1 hw with hw | hw
        · cases hw
        · exact ih (List.forall_mem_nil _) w hw

theorem mem_outerWordsFrom : w ∈ outerWordsFrom q s ↔ .word w ∈ piecesFrom q [] s := by
  rw [outerWordsFrom, List.mem_filterMap]
  constructor
  · rintro ⟨p, hp, heq⟩
    cases p with
    | word v => cases heq; exact hp
    | sign c => cases heq
  · exact fun h => ⟨.word w, h, rfl⟩

/-- Written as they are, the pieces are the text. -/
theorem flatMap_text_id (q : Bool) (word s : Text) :
    (piecesFrom q word s).flatMap (Piece.text id) = word ++ s := by
  have hwhole : ∀ word : Text, (wordPieces word).flatMap (Piece.text id) = word := by
    intro word
    cases word with
    | nil => rfl
    | cons c word =>
      rw [wordPieces, if_neg (by simp), List.flatMap_singleton]
      rfl
  induction s generalizing q word with
  | nil => rw [piecesFrom, hwhole, List.append_nil]
  | cons c s ih =>
    rw [piecesFrom]
    split
    · rw [ih, List.append_assoc, List.singleton_append]
    · rw [List.flatMap_append, hwhole, List.flatMap_cons, ih, Piece.text, List.nil_append,
        List.singleton_append]

/-! ## Replacing -/

/-- The text with the new word in place of the old one, where `q` says whether it starts inside
double quotes. -/
def replaceFrom (old new : Text) (q : Bool) (s : Text) : Text :=
  (piecesFrom q [] s).flatMap (Piece.text (renamed old new))

theorem mapAlternate_cons (f : Text → Text) (s : Text) (fields : List Text) :
    mapAlternate f (s :: fields) = f s :: (fields.take 1 ++ mapAlternate f (fields.drop 1)) := by
  cases fields <;> rfl

theorem join_append_cons (sep s t : Text) (fields : List Text) :
    join sep ((s ++ t) :: fields) = s ++ join sep (t :: fields) := by
  cases fields with
  | nil => simp
  | cons u fields =>
    have hne : u :: fields ≠ [] := List.cons_ne_nil u fields
    rw [join_cons sep _ hne, join_cons sep _ hne, List.append_assoc, List.append_assoc,
      List.append_assoc]

theorem flatMap_wordPieces (f : Text → Text) (word : Text) :
    (wordPieces word).flatMap (Piece.text f) = if word.isEmpty then [] else f word := by
  rw [wordPieces]
  split
  · rfl
  · exact List.append_nil _

/-- Fields between double quotes are changed in turn, and so are the pieces. The first field stands
outside of quotes or inside. -/
theorem join_fields (f : Text → Text) {field : Text} {fields : List Text}
    (h : splitOn '"' s = field :: fields) :
    (∀ word, join ['"'] (mapWordsFrom f word field ::
      (fields.take 1 ++ mapAlternate (mapWords f) (fields.drop 1))) =
        (piecesFrom false word s).flatMap (Piece.text f)) ∧
    join ['"'] (field :: mapAlternate (mapWords f) fields) =
      (piecesFrom true [] s).flatMap (Piece.text f) := by
  induction s generalizing field fields with
  | nil =>
    cases h
    refine ⟨fun word => ?_, rfl⟩
    rw [piecesFrom, flatMap_wordPieces]
    exact join_singleton ..
  | cons c s ih =>
    obtain ⟨field', fields', hs⟩ := List.exists_cons_of_ne_nil (splitWhere_ne_nil (· == '"') s)
    obtain ⟨hout, hin⟩ := ih hs
    rw [splitOn, splitWhere] at h
    split at h
    · next hc =>
      obtain rfl := beq_iff_eq.1 hc
      rw [hs] at h
      cases h
      constructor
      · intro word
        rw [piecesFrom_sign (by decide), List.flatMap_append, flatMap_wordPieces, List.flatMap_cons]
        change join ['"'] (_ :: field' :: mapAlternate (mapWords f) fields') = _
        rw [join_cons _ _ (List.cons_ne_nil _ _), hin, List.append_assoc]
        rfl
      · rw [piecesFrom_sign (by decide), wordPieces_nil, List.nil_append, List.flatMap_cons,
          mapAlternate_cons, join_cons _ _ (by simp)]
        rw [show mapWords f field' = mapWordsFrom f [] field' from rfl, hout]
        rfl
    · next hc =>
      have hquote : c ≠ '"' := by simpa using hc
      rw [hs, consFirst] at h
      cases h
      constructor
      · intro word
        rw [mapWordsFrom]
        split
        · next hpart => rw [piecesFrom_wordPart hpart, hout]
        · next hpart =>
          rw [piecesFrom_sign (by rw [Bool.not_eq_true] at hpart; rw [hpart]; rfl), if_neg hquote,
            List.flatMap_append, flatMap_wordPieces, List.flatMap_cons, ← hout, join_append_cons]
          exact congrArg _ (join_append_cons _ [c] _ _)
      · rw [piecesFrom_sign (by simp), if_neg hquote, wordPieces_nil, List.nil_append,
          List.flatMap_cons, ← hin]
        exact join_append_cons _ [c] _ _

/-- Replacing a word in a line changes the pieces that are this word. -/
theorem replaceWord_eq (old new line : Text) :
    replaceWord old new line = replaceFrom old new false line := by
  obtain ⟨field, fields, h⟩ := List.exists_cons_of_ne_nil (splitWhere_ne_nil (· == '"') line)
  rw [replaceWord, splitOn, h, mapAlternate_cons]
  exact (join_fields (renamed old new) h).1 []

/-! ## Parts -/

theorem replaceFrom_append (h : ∀ c ∈ t.head?, isWordPart c = false) (old new : Text) (q : Bool)
    (s : Text) : replaceFrom old new q (s ++ t) =
      replaceFrom old new q s ++ replaceFrom old new (quotedAfter q s) t := by
  rw [replaceFrom, piecesFrom_append h, List.flatMap_append]
  rfl

theorem outerWordsFrom_append (h : ∀ c ∈ t.head?, isWordPart c = false) (q : Bool) (s : Text) :
    outerWordsFrom q (s ++ t) = outerWordsFrom q s ++ outerWordsFrom (quotedAfter q s) t := by
  rw [outerWordsFrom, piecesFrom_append h, List.filterMap_append]
  rfl

theorem replaceFrom_cons (hc : isWordPart c = false) (hquote : c ≠ '"') (s : Text) :
    replaceFrom old new q (c :: s) = c :: replaceFrom old new q s := by
  rw [replaceFrom, piecesFrom_sign (by rw [hc]; rfl), if_neg hquote]
  rfl

theorem outerWordsFrom_cons (hc : isWordPart c = false) (hquote : c ≠ '"') (s : Text) :
    outerWordsFrom q (c :: s) = outerWordsFrom q s := by
  rw [outerWordsFrom, piecesFrom_sign (by rw [hc]; rfl), if_neg hquote]
  rfl

theorem head?_of_isBlank (hw : IsBlank w) : ∀ c ∈ w.head?, isWordPart c = false :=
  fun c hc => isWordPart_of_isSpace (hw c (List.mem_of_head? hc))

theorem replaceFrom_isBlank_append (hw : IsBlank w) (old new : Text) (q : Bool) (t : Text) :
    replaceFrom old new q (w ++ t) = w ++ replaceFrom old new q t := by
  have hsigns : ∀ w : Text, (w.map Piece.sign).flatMap (Piece.text (renamed old new)) = w := by
    intro w
    induction w with
    | nil => rfl
    | cons c w ih => exact congrArg (c :: ·) ih
  rw [replaceFrom, piecesFrom_isBlank hw, List.flatMap_append, hsigns]
  rfl

theorem replaceFrom_isBlank (hw : IsBlank w) : replaceFrom old new q w = w := by
  have h := replaceFrom_isBlank_append hw old new q []
  rw [List.append_nil] at h
  rw [h]
  exact List.append_nil w

theorem outerWordsFrom_isBlank_append (hw : IsBlank w) (t : Text) :
    outerWordsFrom q (w ++ t) = outerWordsFrom q t := by
  have hsigns : (w.map Piece.sign).filterMap Piece.word? = [] := by simp [Piece.word?]
  rw [outerWordsFrom, piecesFrom_isBlank hw, List.filterMap_append, hsigns]
  rfl

theorem outerWordsFrom_isBlank (hw : IsBlank w) : outerWordsFrom q w = [] := by
  have h := outerWordsFrom_isBlank_append (q := q) hw []
  rwa [List.append_nil] at h

/-- Without the old word nothing changes. -/
theorem replaceFrom_eq_self (h : old ∉ outerWordsFrom q s) : replaceFrom old new q s = s := by
  have hsame : ∀ p ∈ piecesFrom q [] s, p.text (renamed old new) = p.text id := by
    intro p hp
    cases p with
    | sign c => rfl
    | word w =>
      have hne : w ≠ old := by
        rintro rfl
        exact h (mem_outerWordsFrom.2 hp)
      exact if_neg hne
  have hid := flatMap_text_id q [] s
  rw [List.nil_append] at hid
  rw [replaceFrom, List.flatMap_congr hsame, hid]

theorem forall_of_mem_outerWordsFrom (h : w ∈ outerWordsFrom q s) :
    ∀ c ∈ w, isWordPart c = true :=
  (forall_mem_piecesFrom (List.forall_mem_nil _) w (mem_outerWordsFrom.1 h)).2

theorem outerWords_of_forall (hne : s ≠ []) (h : ∀ c ∈ s, isWordPart c = true) :
    outerWords s = [s] := by
  rw [outerWords, outerWordsFrom, piecesFrom_of_forall h, List.nil_append, wordPieces,
    if_neg (by simpa using hne)]
  rfl

/-- A name that stands alone is replaced as a whole, if it is among the words at all. -/
theorem replaceFrom_name (hne : name ≠ [])
    (hcount : (outerWords name).count old = if name = old then 1 else 0) :
    replaceFrom old new false name = renamed old new name := by
  by_cases h : name = old
  · subst h
    rw [if_pos rfl] at hcount
    have hmem : name ∈ outerWords name := List.count_pos_iff.1 (by omega)
    rw [replaceFrom, piecesFrom_of_forall (forall_of_mem_outerWordsFrom hmem), List.nil_append,
      flatMap_wordPieces, if_neg (by simpa using hne)]
  · rw [if_neg h, List.count_eq_zero] at hcount
    rw [replaceFrom_eq_self hcount, renamed, if_neg h]

/-! ## Ends -/

theorem mem_replaceFrom (h : c ∈ replaceFrom old new q s) : c ∈ s ∨ c ∈ new := by
  rw [replaceFrom, List.mem_flatMap] at h
  obtain ⟨p, hp, hc⟩ := h
  have hid := flatMap_text_id q [] s
  rw [List.nil_append] at hid
  have hsame : c ∈ p.text id → c ∈ s := by
    intro hmem
    rw [← hid]
    exact List.mem_flatMap.2 ⟨p, hp, hmem⟩
  cases p with
  | sign d => exact .inl (hsame hc)
  | word w =>
    rw [Piece.text, renamed] at hc
    split at hc
    exacts [.inr hc, .inl (hsame hc)]

/-- The first character stays, or a word begins there and now the new word does. -/
theorem head?_replaceFrom (hnew : new ≠ []) (old : Text) (q : Bool) (s : Text) :
    (replaceFrom old new q s).head? = s.head? ∨
      (replaceFrom old new q s).head? = new.head? ∧ ∃ c, s.head? = some c ∧ isWordPart c = true := by
  have hid := flatMap_text_id q [] s
  rw [List.nil_append] at hid
  have hpieces := forall_mem_piecesFrom (q := q) (s := s) (List.forall_mem_nil _)
  rw [replaceFrom]
  cases hp : piecesFrom q [] s with
  | nil =>
    rw [hp] at hid
    rw [← hid]
    exact .inl rfl
  | cons p ps =>
    rw [hp] at hid hpieces
    rw [List.flatMap_cons] at hid ⊢
    rw [← hid]
    cases p with
    | sign c => exact .inl rfl
    | word w =>
      obtain ⟨hne, hpart⟩ := hpieces w List.mem_cons_self
      obtain ⟨c, r, rfl⟩ := List.exists_cons_of_ne_nil hne
      rw [Piece.text, renamed]
      split
      · refine .inr ⟨?_, c, rfl, hpart c List.mem_cons_self⟩
        rw [List.head?_append_of_ne_nil _ hnew]
      · exact .inl rfl

/-- So is the last one. -/
theorem getLast?_replaceFrom (hnew : new ≠ []) (old : Text) (q : Bool) (s : Text) :
    (replaceFrom old new q s).getLast? = s.getLast? ∨
      (replaceFrom old new q s).getLast? = new.getLast? ∧
        ∃ c, s.getLast? = some c ∧ isWordPart c = true := by
  have hid := flatMap_text_id q [] s
  rw [List.nil_append] at hid
  have hpieces := forall_mem_piecesFrom (q := q) (s := s) (List.forall_mem_nil _)
  rw [replaceFrom]
  rcases List.eq_nil_or_concat (piecesFrom q [] s) with hp | ⟨ps, p, hp⟩
  · rw [hp] at hid ⊢
    rw [← hid]
    exact .inl rfl
  · rw [hp, List.concat_eq_append] at hid hpieces ⊢
    rw [List.flatMap_append, List.flatMap_singleton] at hid ⊢
    rw [← hid]
    cases p with
    | sign c => exact .inl (by simp [Piece.text])
    | word w =>
      obtain ⟨hne, hpart⟩ := hpieces w (by simp)
      rw [Piece.text, Piece.text, renamed]
      split
      · have hlast := List.getLast?_eq_some_getLast hne
        refine .inr ⟨List.getLast?_append_of_ne_nil _ hnew, w.getLast hne, ?_, ?_⟩
        · rw [List.getLast?_append_of_ne_nil _ (show id w ≠ [] from hne)]
          exact hlast
        · exact hpart _ (List.getLast_mem hne)
      · refine .inl ?_
        rw [List.getLast?_append_of_ne_nil _ hne,
          List.getLast?_append_of_ne_nil _ (show id w ≠ [] from hne)]
        rfl

theorem replaceFrom_eq_nil_iff (hnew : new ≠ []) : replaceFrom old new q s = [] ↔ s = [] := by
  rw [← List.head?_eq_none_iff, ← List.head?_eq_none_iff (l := s)]
  rcases head?_replaceFrom hnew old q s with h | ⟨h, c, hc, -⟩
  · rw [h]
  · rw [h, hc]
    exact ⟨fun hnil => absurd (List.head?_eq_none_iff.1 hnil) hnew, fun h => by cases h⟩

/-! ## Blanks -/

/-- The blanks at both ends stay. -/
theorem exists_replaceWord_eq (old new line : Text) : ∃ w v, IsBlank w ∧ IsBlank v ∧
    line = w ++ (trim line ++ v) ∧
    replaceWord old new line = w ++ (replaceFrom old new false (trim line) ++ v) := by
  obtain ⟨w, v, hw, hv, hline⟩ := exists_append_trim_append line
  rw [List.append_assoc] at hline
  refine ⟨w, v, hw, hv, hline.symm, ?_⟩
  rw [replaceWord_eq]
  conv_lhs => rw [← hline]
  rw [replaceFrom_isBlank_append hw, replaceFrom_append (head?_of_isBlank hv), replaceFrom_isBlank hv]

section Blank

variable (hnew : new ≠ []) (hsolid : ∀ c ∈ new, isSpace c = false)

include hnew hsolid

theorem isTrimmed_replaceFrom (h : IsTrimmed s) : IsTrimmed (replaceFrom old new q s) where
  head := by
    intro c hc
    rcases head?_replaceFrom hnew old q s with heq | ⟨heq, -⟩ <;> rw [heq] at hc
    exacts [h.head c hc, hsolid c (List.mem_of_head? hc)]
  last := by
    intro c hc
    rcases getLast?_replaceFrom hnew old q s with heq | ⟨heq, -⟩ <;> rw [heq] at hc
    exacts [h.last c hc, hsolid c (List.mem_of_getLast? hc)]

theorem trim_replaceWord (old line : Text) :
    trim (replaceWord old new line) = replaceFrom old new false (trim line) := by
  obtain ⟨w, v, hw, hv, -, heq⟩ := exists_replaceWord_eq old new line
  rw [heq, trim_of_isBlank_append hw, trim_append_of_isBlank _ hv]
  exact trim_eq_self (isTrimmed_replaceFrom hnew hsolid (isTrimmed_trim line))

end Blank

theorem outerWords_trim (line : Text) : outerWords (trim line) = outerWords line := by
  obtain ⟨w, v, hw, hv, hline⟩ := exists_append_trim_append line
  conv_rhs => rw [← hline]
  rw [outerWords, outerWords, List.append_assoc, outerWordsFrom_isBlank_append hw,
    outerWordsFrom_append (head?_of_isBlank hv), outerWordsFrom_isBlank hv, List.append_nil]

/-! ## Fields between blanks -/

/-- A text that is not blank begins, behind blanks, with the first of its fields. -/
theorem exists_first_field (h : ¬IsBlank s) : ∃ w field rest, s = w ++ (field ++ rest) ∧
    IsBlank w ∧ field ≠ [] ∧ (∀ c ∈ field, isSpace c = false) ∧
      (∀ c ∈ rest.head?, isSpace c = true) ∧ words s = field :: words rest := by
  have hne : trimStart s ≠ [] := mt trimStart_eq_nil_iff.1 h
  obtain ⟨field, rest, hs, hhead, hfield, hrest, hwords⟩ :=
    exists_words_eq_cons (head?_trimStart s) hne
  refine ⟨indent s, field, rest, ?_, isBlank_indent s, ?_, hfield, hrest, ?_⟩
  · rw [← hs, indent_append_trimStart]
  · rintro rfl
    rw [List.head?_nil, eq_comm, List.head?_eq_none_iff] at hhead
    exact hne hhead
  · rw [← hwords, words_trimStart]

theorem words_append_of_head (hne : s ≠ []) (hs : ∀ c ∈ s, isSpace c = false)
    (ht : ∀ c ∈ t.head?, isSpace c = true) : words (s ++ t) = s :: words t := by
  cases t with
  | nil => rw [List.append_nil, words_eq_singleton hne hs]; rfl
  | cons c t =>
    rw [words_append_cons s (ht c rfl), words_eq_singleton hne hs, words_cons (ht c rfl)]
    rfl

/-- Without quotes the fields are replaced one by one, and their words are the words of the text. -/
theorem words_replaceFrom (old : Text) (hnew : new ≠ []) (hsolid : ∀ c ∈ new, isSpace c = false)
    (hquote : '"' ∉ s) :
    words (replaceFrom old new false s) = (words s).map (replaceFrom old new false) ∧
      outerWords s = (words s).flatMap outerWords := by
  -- The induction takes off the first field.
  induction hn : s.length using Nat.strong_induction_on generalizing s with
  | _ n ih =>
    by_cases hblank : IsBlank s
    · have hwords : words s = [] := by
        rw [← words_trimStart, trimStart_eq_nil_iff.2 hblank]
        rfl
      rw [replaceFrom_isBlank hblank, hwords, outerWords, outerWordsFrom_isBlank hblank]
      exact ⟨rfl, rfl⟩
    · obtain ⟨w, field, rest, rfl, hw, hne, hfield, hrest, hwords⟩ := exists_first_field hblank
      simp only [List.mem_append, not_or] at hquote
      obtain ⟨-, hfieldquote, hrestquote⟩ := hquote
      have hstate : quotedAfter false field = false :=
        quotedAfter_of_not_mem hfieldquote false
      have hboundary : ∀ c ∈ rest.head?, isWordPart c = false :=
        fun c hc => isWordPart_of_isSpace (hrest c hc)
      have hlt : rest.length < n := by
        have := List.length_pos_of_ne_nil hne
        simp only [List.length_append] at hn
        omega
      obtain ⟨ihreplace, ihwords⟩ := ih rest.length hlt hrestquote rfl
      have hhead : ∀ c ∈ (replaceFrom old new false rest).head?, isSpace c = true := by
        intro c hc
        rcases head?_replaceFrom hnew old false rest with heq | ⟨-, d, hd, hpart⟩
        · exact hrest c (heq ▸ hc)
        · rw [hboundary d hd] at hpart
          cases hpart
      have hsolidfield : ∀ c ∈ replaceFrom old new false field, isSpace c = false :=
        fun c hc => (mem_replaceFrom hc).elim (hfield c) (hsolid c)
      constructor
      · rw [hwords, List.map_cons, replaceFrom_isBlank_append hw, replaceFrom_append hboundary, hstate,
          ← ihreplace, ← words_trimStart, trimStart_of_isBlank_append hw, words_trimStart,
          words_append_of_head (mt (replaceFrom_eq_nil_iff hnew).1 hne) hsolidfield hhead]
      · rw [hwords, List.flatMap_cons, ← ihwords, outerWords, outerWordsFrom_isBlank_append hw,
          outerWordsFrom_append hboundary, hstate]
        rfl

end DiagramEditor.Text
