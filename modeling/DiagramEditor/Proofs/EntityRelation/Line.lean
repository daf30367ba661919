import DiagramEditor.Proofs.EntityRelation.Content
import DiagramEditor.Proofs.Text.Flat
import DiagramEditor.Proofs.Text.Words

/-!
# Lines of entity diagrams

What decides about a single line: a header is no relationship, so it is read as a header wherever no
block is open (`Effect.ofLine_none_eq_header_iff`), and inside of a block only a closing brace ends
the block (`Stretch.of_isBlockClose`, `Stretch.of_not_isBlockClose`). A header is read back where its
parts are written one behind the other (`EntityHeader.ofLine?_append`).

Everything that a view holds has been read from a line, so its parts are such that a line can hold
them again: every entity has an entity name (`View.isEntityName_of_mem`), no title has a closing
bracket and the type of every attribute is a word (`View.isReadable_of_entity?`).
-/

namespace DiagramEditor.EntityRelation

open Text Identifier

variable {line text name tail rest w : Text} {inside : Option Text} {h : EntityHeader}

/-! ## Words -/

/-- The first character of a word is neither a blank nor a sign. -/
theorem exists_cons_of_isWord (h : isWord name = true) :
    ∃ c r, name = c :: r ∧ isSpace c = false ∧ c ∉ ['%', '{', '}'] := by
  cases name with
  | nil => cases h
  | cons c r =>
    have hident : isIdentChar c = true := by
      rcases Bool.or_eq_true_iff.1 h with h | h
      · simp [isIdentChar, Unicode.isAlphanumeric, h]
      · simp [isIdentChar, h]
    refine ⟨c, r, rfl, isSpace_of_isIdentChar hident, fun hc => ?_⟩
    have hsign : isIdentChar c = false := eq_false_of_any (by decide) hc
    exact nomatch hident.symm.trans hsign

/-- A line whose content begins with a word is neither silent nor a closing brace. -/
theorem of_isWord_append (hw : IsBlank w) (h : isWord name = true) (rest : Text) :
    isSilent (trim (w ++ (name ++ rest))) = false ∧
      isBlockClose (trim (w ++ (name ++ rest))) = false := by
  obtain ⟨c, r, rfl, hspace, hc⟩ := exists_cons_of_isWord h
  have hhead : (trim (w ++ (c :: r ++ rest))).head? = some c := by
    rw [head?_trim, trimStart_of_isBlank_append hw, List.cons_append,
      trimStart_eq_self (by simpa using hspace)]
    rfl
  simp only [List.mem_cons, List.not_mem_nil, or_false, not_or] at hc
  cases ht : trim (w ++ (c :: r ++ rest)) with
  | nil => rw [ht] at hhead; cases hhead
  | cons d t =>
    rw [ht] at hhead
    cases hhead
    constructor
    · simp [isSilent, startsWith, stripFront?, Ne.symm hc.1]
    · simp [isBlockClose, hc.2.2]

/-! ## Attributes -/

namespace Attribute

variable {a : Attribute} {words : List Text}

theorem subset_keysOfWords (words : List Text) : (keysOfWords words).2 ⊆ words := by
  induction words with
  | nil => exact List.nil_subset _
  | cons word rest ih =>
    rw [keysOfWords]
    split
    · exact List.Subset.refl _
    · exact List.subset_cons_of_subset word ih

/-- What all words have in common, and keep when they are unquoted, the texts of the attributes have
in common; and types and names are words. -/
theorem forall_ofWords? {P : Text → Prop} (hunquote : ∀ w, P w → P (unquote w))
    (h : ∀ w ∈ words, P w) {as : List Attribute} (hread : ofWords? words = some as) :
    ∀ a ∈ as, (P a.type ∧ P a.name ∧ ∀ text ∈ a.comment, P text) ∧ isWord a.type = true := by
  induction words using ofWords?.induct generalizing as with
  | case1 =>
    rw [ofWords?] at hread
    cases hread
    exact fun a ha => absurd ha List.not_mem_nil
  | case2 => rw [ofWords?] at hread; cases hread
  | case3 type name words hwords keys comment =>
    rename_i ih
    rw [ofWords?, if_pos hwords] at hread
    obtain ⟨rest, hrest, rfl⟩ := Option.map_eq_some_iff.1 hread
    obtain ⟨htype, h⟩ := List.forall_mem_cons.1 h
    obtain ⟨hname, h⟩ := List.forall_mem_cons.1 h
    have h : ∀ w ∈ (keysOfWords words).2, P w := fun w hw => h w (subset_keysOfWords words hw)
    have hcomment : (∀ text ∈ (commentOfWords (keysOfWords words).2).1, P text) ∧
        ∀ w ∈ (commentOfWords (keysOfWords words).2).2, P w := by
      cases hkeys : (keysOfWords words).2 with
      | nil =>
        exact ⟨fun text h => absurd h (Option.not_mem_none text),
          fun w h => absurd h List.not_mem_nil⟩
      | cons word rest =>
        rw [hkeys] at h
        rw [commentOfWords]
        split
        · exact ⟨fun text htext => Option.some.inj htext ▸ hunquote word (h word List.mem_cons_self),
            fun w hw => h w (List.mem_cons_of_mem word hw)⟩
        · exact ⟨fun text htext => absurd htext (Option.not_mem_none text), h⟩
    exact List.forall_mem_cons.2 ⟨⟨⟨htype, hname, hcomment.1⟩, (Bool.and_eq_true_iff.1 hwords).1⟩,
      ih hcomment.2 hrest⟩
  | case4 type name words hwords => rw [ofWords?, if_neg hwords] at hread; cases hread

theorem ofLine?_eq_some (hread : ofLine? line = some a) :
    '\x7b' ∉ trim line ∧ '\x7d' ∉ trim line ∧ ofWords? (wordsOutside (trim line)) = some [a] := by
  rw [ofLine?] at hread
  split at hread
  · cases hread
  · next hcond =>
    simp only [Bool.or_eq_true, List.contains_iff_mem, not_or] at hcond
    split at hread
    · next hwords =>
      cases hread
      exact ⟨hcond.1.2, hcond.2, hwords⟩
    · cases hread

theorem not_isBlockClose_of_ofLine? (hread : ofLine? line = some a) :
    isBlockClose (trim line) = false := by
  rw [isBlockClose, decide_eq_false_iff_not]
  intro htrim
  exact (ofLine?_eq_some hread).2.1 (htrim ▸ List.mem_cons_self)

/-- The characters that the written form adds to the texts of an attribute. -/
def signs : Text :=
  " ,PFUK".toList ++ '"' :: quoteEntity

theorem render_subset (a : Attribute) :
    a.render ⊆ signs ++ (a.type ++ (a.name ++ a.comment.getD [])) := by
  have hsigns : ∀ {c : Char}, c ∈ signs → c ∈ signs ++ (a.type ++ (a.name ++ a.comment.getD [])) :=
    List.mem_append_left _
  rw [render]
  refine List.append_subset.2 ⟨List.append_subset.2 ⟨List.append_subset.2 ⟨?_, ?_⟩, ?_⟩, ?_⟩
  · exact fun c hc => List.mem_append_right _ (List.mem_append_left _ hc)
  · refine List.cons_subset.2 ⟨hsigns (by decide), fun c hc => ?_⟩
    exact List.mem_append_right _ (List.mem_append_right _ (List.mem_append_left _ hc))
  · split
    · exact List.nil_subset _
    · refine List.cons_subset.2 ⟨hsigns (by decide), fun c hc => hsigns ?_⟩
      rcases List.mem_append.1 (join_subset _ _ hc) with hc | hc
      · rw [List.mem_singleton.1 hc]
        decide
      · obtain ⟨text, htext, hc⟩ := List.mem_flatten.1 hc
        obtain ⟨key, -, rfl⟩ := List.mem_map.1 htext
        have hkey : key.text ⊆ signs := by cases key <;> decide
        exact hkey hc
  · split
    · exact List.nil_subset _
    · next comment hcomment =>
      rw [hcomment] at hsigns ⊢
      refine List.cons_subset.2 ⟨hsigns (by decide), fun c hc => ?_⟩
      rcases List.mem_append.1 (quote_subset comment hc) with hc | hc
      · exact hsigns (List.mem_append_right _ hc)
      · exact List.mem_append_right _ (List.mem_append_right _ (List.mem_append_right _ hc))

end Attribute

/-! ## Headers -/

/-- The parts of a header: the name, then perhaps a title, then the form. -/
theorem EntityHeader.ofLine?_eq_some (hread : ofLine? line = some h) :
    ∃ tail rest, trim line = h.name ++ tail ∧ Relationship.isEntityName h.name = true ∧
      (∀ c ∈ tail.head?, isEntityChar c = false) ∧
      scanTitle? (trimStart tail) = some (h.title, rest) ∧ form? rest = some h.form := by
  obtain ⟨_, hword, hread⟩ := Option.bind_eq_some_iff.1 hread
  obtain ⟨⟨title, rest⟩, htitle, hread⟩ := Option.bind_eq_some_iff.1 hread
  obtain ⟨form, hform, heq⟩ := Option.bind_eq_some_iff.1 hread
  cases heq
  refine ⟨_, rest, List.takeWhile_append_dropWhile.symm, ?_, ?_, htitle, hform⟩
  · rw [Relationship.isEntityName, Bool.and_eq_true, List.all_eq_true]
    exact ⟨fun c hc => List.mem_takeWhile_imp hc, by simpa using hword⟩
  · intro c hc
    have := List.head?_dropWhile_not isEntityChar (trim line)
    rw [hc] at this
    simpa using this

/-- What stands behind the name of a header begins with a bracket or a brace. -/
theorem EntityHeader.head?_of_form? {s : Text} {title : Option Text} {form : EntityForm}
    (htitle : scanTitle? s = some (title, rest)) (hform : form? rest = some form) :
    ∀ c ∈ s.head?, c = '[' ∨ c = '\x7b' := by
  intro c hc
  rw [scanTitle?.eq_def] at htitle
  split at htitle
  · exact .inl (Option.some.inj hc).symm
  · cases htitle
    rw [form?] at hform
    cases rest with
    | nil => cases hc
    | cons d rest =>
      cases hc
      rw [if_neg (by simp)] at hform
      split at hform
      · next heq => exact .inr (List.cons.inj heq).1
      · obtain ⟨body, hbody, -⟩ := Option.bind_eq_some_iff.1 hform
        obtain ⟨front, hfront, -⟩ := Option.bind_eq_some_iff.1 hbody
        rw [stripFront?_eq_some] at hfront
        exact .inr (List.cons.inj hfront).1

/-- The sign of a relationship begins with neither. -/
theorem Cardinality.head_of_ofLeftToken? {a b : Char} {c : Cardinality}
    (h : ofLeftToken? [a, b] = some c) : a = '|' ∨ a = '\x7d' := by
  have htoken : c.leftToken = [a, b] := by simpa using List.find?_some h
  cases c <;> cases htoken <;> decide

/-- Where the first word is an entity name, it is the one that the text begins with. -/
theorem words_of_isEntityName {others : List Text} (hname : Relationship.isEntityName name = true)
    (hrest : ∀ c ∈ rest.head?, isEntityChar c = false) (hw : Relationship.isEntityName w = true)
    (h : words (name ++ rest) = w :: others) : words rest = others := by
  obtain ⟨hchars, hword⟩ := Bool.and_eq_true_iff.1 hname
  rw [List.all_eq_true] at hchars
  obtain ⟨d, name', hcons, hd, -⟩ := exists_cons_of_isWord hword
  obtain ⟨w', blank, hsplit, -, -, hblank, hcut⟩ := exists_words_eq_cons (s := name ++ rest)
    (by rw [hcons]; simpa using hd) (by rw [hcons]; exact List.cons_ne_nil d _)
  obtain ⟨rfl, hwords⟩ := List.cons.inj (hcut.symm.trans h)
  -- The first word and the name are both as long as they can be, so neither goes on in the other.
  suffices rest = blank from this ▸ hwords
  rcases List.append_eq_append_iff.1 hsplit with ⟨more, rfl, hmore⟩ | ⟨more, hmore, rfl⟩
  · cases more with
    | nil => exact hmore
    | cons x more =>
      have hx := List.all_eq_true.1 (Bool.and_eq_true_iff.1 hw).1 x
        (List.mem_append_right _ List.mem_cons_self)
      rw [hrest x (by rw [hmore]; rfl)] at hx
      cases hx
  · cases more with
    | nil => rfl
    | cons x more =>
      have hx := isSpace_of_isEntityChar
        (hchars x (hmore ▸ List.mem_append_right _ List.mem_cons_self))
      rw [hblank x rfl] at hx
      cases hx

/-- The parts of a relationship: the left entity is the first word in front of the colon, the sign is
the second, and the right entity is the third. -/
theorem Relationship.ofLine?_eq_some {r : Relationship} (hread : ofLine? line = some r) :
    ∃ left label a b more, trim line = left ++ ':' :: label ∧
      words left = [r.entity1, a :: b :: more, r.entity2] ∧ isEntityName r.entity1 = true ∧
      isEntityName r.entity2 = true ∧ Cardinality.ofLeftToken? [a, b] = some r.cardinality1 := by
  obtain ⟨⟨left, label⟩, hcut, hread⟩ := Option.bind_eq_some_iff.1 hread
  dsimp only at hread
  split at hread
  case h_2 => cases hread
  next entity1 a b c d e f entity2 hwords =>
  obtain ⟨_, hguard, hread⟩ := Option.bind_eq_some_iff.1 hread
  obtain ⟨card, hcard, hread⟩ := Option.bind_eq_some_iff.1 hread
  obtain ⟨ident, -, hread⟩ := Option.bind_eq_some_iff.1 hread
  obtain ⟨card2, -, hread⟩ := Option.bind_eq_some_iff.1 hread
  cases hread
  simp only [Option.guard_eq_some', Bool.and_eq_true] at hguard
  exact ⟨left, label, a, b, _, (cutChar?_eq_some hcut).1, hwords, hguard.1, hguard.2, hcard⟩

/-- A header is no relationship: where the sign would be, it has its title or its form. -/
theorem Relationship.ofLine?_eq_none_of_header (hread : EntityHeader.ofLine? line = some h) :
    Relationship.ofLine? line = none := by
  obtain ⟨tail, rest, hline, hname, htail, htitle, hform⟩ := EntityHeader.ofLine?_eq_some hread
  rw [Option.eq_none_iff_forall_ne_some]
  intro r hr
  obtain ⟨left, label, a, b, more, hleft, hwords, hentity, -, hcard⟩ := ofLine?_eq_some hr
  -- The colon stands behind the name, so the left side begins with the name.
  obtain ⟨left', rfl, rfl⟩ : ∃ left', left = h.name ++ left' ∧ tail = left' ++ ':' :: label := by
    rcases List.append_eq_append_iff.1 (hline.symm.trans hleft) with ⟨more, hmore, heq⟩ |
      ⟨more, hmore, heq⟩
    · exact ⟨more, hmore, heq⟩
    · cases more with
      | nil => exact ⟨[], by simpa using hmore.symm, by simpa using heq.symm⟩
      | cons x more =>
        obtain ⟨rfl, -⟩ := List.cons.inj heq
        have := List.all_eq_true.1 (Bool.and_eq_true_iff.1 hname).1 ':'
          (hmore ▸ List.mem_append_right _ List.mem_cons_self)
        exact absurd this (by decide)
  -- Behind the name the sign would begin where the title or the form does.
  have hrest : words (trimStart left') = [a :: b :: more, r.entity2] := by
    rw [words_trimStart]
    refine words_of_isEntityName hname (fun c hc => htail c ?_) hentity hwords
    cases left' with
    | nil => cases hc
    | cons x left' => exact hc
  have hne : trimStart left' ≠ [] := fun hnil => by rw [hnil] at hrest; cases hrest
  obtain ⟨w', _, -, hhead, -, -, hcut⟩ := exists_words_eq_cons (head?_trimStart left') hne
  obtain ⟨rfl, -⟩ := List.cons.inj (hcut.symm.trans hrest)
  have hform := EntityHeader.head?_of_form? htitle hform a (by
    rw [trimStart_append (mt trimStart_eq_nil_iff.2 hne), List.head?_append, ← hhead]
    rfl)
  have hcard := Cardinality.head_of_ofLeftToken? hcard
  revert hform hcard
  rintro (rfl | rfl) <;> decide

/-! ## What lines do -/

namespace EntityHeader

/-- A header is neither silent nor a closing brace. -/
theorem not_isSilent (hread : ofLine? line = some h) :
    isSilent (trim line) = false ∧ isBlockClose (trim line) = false := by
  obtain ⟨tail, -, hline, hname, -⟩ := ofLine?_eq_some hread
  have := of_isWord_append isBlank_nil (Bool.and_eq_true_iff.1 hname).2 tail
  rwa [List.nil_append, ← hline, trim_trim] at this

/-- What is left behind the title stands at the end. -/
theorem suffix_of_scanTitle? {s : Text} {title : Option Text}
    (h : scanTitle? s = some (title, rest)) : rest <:+ s := by
  rw [scanTitle?.eq_def] at h
  split at h
  · next after =>
    obtain ⟨⟨raw, after'⟩, hcut, heq⟩ := Option.map_eq_some_iff.1 h
    cases heq
    obtain ⟨rfl, -⟩ := cutChar?_eq_some hcut
    refine (List.dropWhile_suffix _).trans ⟨'[' :: raw ++ [']'], ?_⟩
    simp
  · cases h
    exact List.suffix_refl _

/-- The title of a header holds no closing bracket. -/
theorem not_mem_title (hread : ofLine? line = some h) : ∀ title ∈ h.title, ']' ∉ title := by
  obtain ⟨tail, rest, -, -, -, htitle, -⟩ := ofLine?_eq_some hread
  intro title hmem
  rw [hmem, scanTitle?.eq_def] at htitle
  split at htitle
  · obtain ⟨⟨raw, after⟩, hcut, heq⟩ := Option.map_eq_some_iff.1 htitle
    cases heq
    obtain ⟨-, hraw⟩ := cutChar?_eq_some hcut
    exact fun hc => (List.mem_cons.1 (unquote_subset raw hc)).elim (by decide) hraw
  · cases htitle

theorem isWord_of_mem_attributes (hread : ofLine? line = some h) :
    ∀ a ∈ h.form.attributes, isWord a.type = true := by
  obtain ⟨tail, rest, -, -, -, -, hform⟩ := ofLine?_eq_some hread
  intro a ha
  rw [form?] at hform
  cases hcases : h.form with
  | inline as =>
    rw [hcases] at ha hform
    split at hform
    · cases hform
    · split at hform
      · cases hform
      · obtain ⟨body, -, hform⟩ := Option.bind_eq_some_iff.1 hform
        obtain ⟨as', has, heq⟩ := Option.bind_eq_some_iff.1 hform
        cases heq
        exact (Attribute.forall_ofWords? (P := fun _ => True) (fun _ _ => trivial)
          (fun _ _ => trivial) has a ha).2
  | _ => rw [hcases] at ha; cases ha

/-- A header is read where its parts are. -/
theorem ofLine?_append {title : Option Text} {form : EntityForm} (hw : IsBlank w)
    (hname : Relationship.isEntityName name = true) (hne : tail ≠ [])
    (htail : ∀ c ∈ tail.head?, isEntityChar c = false)
    (hlast : ∀ c ∈ tail.getLast?, isSpace c = false)
    (htitle : scanTitle? (trimStart tail) = some (title, rest)) (hform : form? rest = some form) :
    ofLine? (w ++ (name ++ tail)) = some ⟨name, w.length, title, form⟩ := by
  obtain ⟨hchars, hword⟩ := Bool.and_eq_true_iff.1 hname
  rw [List.all_eq_true] at hchars
  obtain ⟨c, name', hcons, hc, -⟩ := exists_cons_of_isWord hword
  -- Trimming takes the indent and nothing else.
  have hhead : ∀ d ∈ (name ++ tail).head?, isSpace d = false := by
    rw [hcons]
    simpa using hc
  have htrim : trim (w ++ (name ++ tail)) = name ++ tail := by
    rw [trim_of_isBlank_append hw, trim_eq_self ⟨hhead, fun d hd => hlast d ?_⟩]
    rwa [List.getLast?_append_of_ne_nil _ hne] at hd
  have hindent : indent (w ++ (name ++ tail)) = w := by
    rw [indent_of_isBlank_append hw, indent_eq_nil hhead, List.append_nil]
  have htake : (name ++ tail).takeWhile isEntityChar = name := by
    rw [List.takeWhile_append_of_pos hchars]
    cases tail with
    | nil => exact absurd rfl hne
    | cons d tail => rw [List.takeWhile_cons_of_neg (by simp [htail d rfl]), List.append_nil]
  have hdrop : (name ++ tail).dropWhile isEntityChar = tail := by
    rw [List.dropWhile_append_of_pos hchars]
    cases tail with
    | nil => exact absurd rfl hne
    | cons d tail => rw [List.dropWhile_cons_of_neg (by simp [htail d rfl])]
  simp [ofLine?, htrim, hindent, htake, hdrop, hword, htitle, hform]

/-- The header of a block without a title. -/
theorem ofLine?_opener (hw : IsBlank w) (hname : Relationship.isEntityName name = true) :
    ofLine? (w ++ (name ++ [' ', '\x7b'])) = some ⟨name, w.length, none, .blockOpen⟩ := by
  have hscan : scanTitle? (trimStart [' ', '\x7b']) = some (none, ['\x7b']) := rfl
  refine ofLine?_append hw hname (List.cons_ne_nil _ _) ?_ ?_ hscan rfl
  · simp; decide
  · simp; decide

/-- A header with a brace at its end opens a block. -/
theorem isBlockOpen_of_form (hread : ofLine? line = some h) (hform : h.form = .blockOpen) :
    isBlockOpen (trim line) = true := by
  obtain ⟨tail, rest, hline, -, -, htitle, hrest⟩ := ofLine?_eq_some hread
  have hsilent := (not_isSilent hread).1
  rw [isSilent, Bool.or_eq_false_iff] at hsilent
  -- Only a brace that stands alone behind the title opens a block.
  have hrest : rest = ['\x7b'] := by
    rw [form?] at hrest
    split at hrest
    · rw [hform] at hrest; cases hrest
    · split at hrest
      · assumption
      · obtain ⟨_, -, hrest⟩ := Option.bind_eq_some_iff.1 hrest
        obtain ⟨_, -, hrest⟩ := Option.bind_eq_some_iff.1 hrest
        rw [hform] at hrest
        cases hrest
  subst hrest
  have hend : ['\x7b'] <:+ trim line := by
    rw [hline]
    exact ((suffix_of_scanTitle? htitle).trans (List.dropWhile_suffix _)).trans
      (List.suffix_append h.name tail)
  obtain ⟨front, hfront⟩ := hend
  rw [isBlockOpen, endsWith, stripEnd?, ← hfront, Bool.and_eq_true]
  refine ⟨by simp [stripFront?], ?_⟩
  rw [hfront]
  exact congrArg Bool.not hsilent.2

end EntityHeader

namespace Effect

/-- Wherever no block is open, a header is read as one. -/
theorem ofLine_none_eq_header_iff :
    ofLine none text = .header h ↔ EntityHeader.ofLine? text = some h := by
  rw [ofLine.eq_def]
  constructor
  · intro heffect
    split at heffect
    · cases heffect
    · dsimp only at heffect
      rw [Statement.ofLine] at heffect
      cases hrel : Relationship.ofLine? text with
      | some r => rw [hrel] at heffect; cases heffect
      | none =>
        rw [hrel] at heffect
        cases hread : EntityHeader.ofLine? text with
        | none => rw [hread] at heffect; cases heffect
        | some h' => rw [hread] at heffect; cases heffect; rfl
  · intro hread
    rw [if_neg (by simp [EntityHeader.not_isSilent hread])]
    dsimp only
    rw [Statement.ofLine, Relationship.ofLine?_eq_none_of_header hread, hread]

/-- A closing brace ends the block that is open, and does nothing where none is. -/
theorem ofLine_of_isBlockClose (hclose : isBlockClose (trim text) = true) (inside : Option Text) :
    ofLine inside text = inside.elim .skip .close := by
  have htrim : trim text = ['\x7d'] := by simpa [isBlockClose] using hclose
  cases inside with
  | some name =>
    rw [ofLine.eq_def, htrim]
    rfl
  | none =>
    have hrel : Relationship.ofLine? text = none := by
      rw [Relationship.ofLine?, htrim]
      rfl
    have hheader : EntityHeader.ofLine? text = none := by
      rw [EntityHeader.ofLine?, htrim]
      rfl
    rw [ofLine.eq_def, Statement.ofLine, hrel, hheader, ite_self]
    rfl

theorem isBlockClose_of_close {inside : Option Text} (h : ofLine inside text = .close name) :
    isBlockClose (trim text) = true := by
  rw [eq_some_of_close h, ofLine.eq_def] at h
  split at h
  · cases h
  · dsimp only at h
    split at h
    · assumption
    · split at h <;> cases h

theorem ofLine?_of_addAttribute {a : Attribute} (h : ofLine inside text = .addAttribute name a) :
    Attribute.ofLine? text = some a := by
  rcases inside_cases (eq_some_of_addAttribute h) text with heq | heq | ⟨a', ha', heq⟩ <;>
    rw [h] at heq <;> cases heq
  exact ha'

theorem ofLine?_of_relationship {r : Relationship} (h : ofLine inside text = .relationship r) :
    Relationship.ofLine? text = some r := by
  rw [eq_none_of_relationship h, ofLine.eq_def] at h
  split at h
  · cases h
  · dsimp only at h
    rw [Statement.ofLine] at h
    cases hrel : Relationship.ofLine? text with
    | some r' => rw [hrel] at h; cases h; rfl
    | none =>
      rw [hrel] at h
      cases hread : EntityHeader.ofLine? text <;> rw [hread] at h <;> cases h

theorem ofLine?_of_header (hheader : ofLine inside text = .header h) :
    EntityHeader.ofLine? text = some h :=
  ofLine_none_eq_header_iff.1 (eq_none_of_header hheader ▸ hheader)

end Effect

/-- A closing brace without a block is about nothing. -/
theorem Stretch.of_isBlockClose_none (hclose : isBlockClose (trim text) = true) (name : Text) :
    Stretch name none none [text] :=
  .singleton (by rw [Effect.ofLine_of_isBlockClose hclose]; exact ⟨rfl, nofun⟩)
    (by rw [Effect.ofLine_of_isBlockClose hclose]; rfl)

theorem Stretch.of_isBlockClose (hclose : isBlockClose (trim text) = true) (name : Text) :
    Stretch name (some name) none [text] :=
  .singleton (by rw [Effect.ofLine_of_isBlockClose hclose]; exact ⟨rfl, List.forall_mem_singleton.2 rfl⟩)
    (by rw [Effect.ofLine_of_isBlockClose hclose]; rfl)

/-- Inside of a block every other line is about the entity of the block. -/
theorem Stretch.of_not_isBlockClose (hclose : isBlockClose (trim text) = false) (name : Text) :
    Stretch name (some name) (some name) [text] := by
  rcases Effect.inside_cases (rfl : some name = some name) text with h | h | ⟨a, -, h⟩
  · exact .singleton (by rw [h]; exact ⟨rfl, nofun⟩) (by rw [h]; rfl)
  · rw [Effect.isBlockClose_of_close h] at hclose
    cases hclose
  · exact .singleton (by rw [h]; exact ⟨rfl, List.forall_mem_singleton.2 rfl⟩) (by rw [h]; rfl)

theorem Stretch.of_forall_not_isBlockClose {texts : List Text}
    (h : ∀ text ∈ texts, isBlockClose (trim text) = false) (name : Text) :
    Stretch name (some name) (some name) texts := by
  induction texts with
  | nil => exact .nil name (some name)
  | cons text texts ih =>
    obtain ⟨htext, htexts⟩ := List.forall_mem_cons.1 h
    exact (Stretch.of_not_isBlockClose htext name).append (ih htexts)

/-! ## Parts that lines can hold -/

namespace Effect

variable {inside : Option Text} {effect : Effect}

/-- What a line names is an entity name, if the name of the block that is open is one. -/
theorem isEntityName_of_mem_names (hinside : ∀ n ∈ inside, Relationship.isEntityName n = true)
    (text : Text) : ∀ n ∈ (ofLine inside text).names, Relationship.isEntityName n = true := by
  cases heffect : ofLine inside text with
  | skip => exact nofun
  | close n => exact List.forall_mem_singleton.2 (hinside n (eq_some_of_close heffect))
  | addAttribute n a => exact List.forall_mem_singleton.2 (hinside n (eq_some_of_addAttribute heffect))
  | relationship r =>
    obtain ⟨-, -, -, -, -, -, -, h1, h2, -⟩ :=
      Relationship.ofLine?_eq_some (ofLine?_of_relationship heffect)
    exact List.forall_mem_cons.2 ⟨h1, List.forall_mem_singleton.2 h2⟩
  | header h =>
    obtain ⟨-, -, -, hname, -⟩ := EntityHeader.ofLine?_eq_some (ofLine?_of_header heffect)
    exact List.forall_mem_singleton.2 hname

end Effect

theorem isEntityName_of_mem_effects {inside : Option Text} {texts : List Text}
    (hinside : ∀ n ∈ inside, Relationship.isEntityName n = true) :
    ∀ n ∈ (effects inside texts).flatMap Effect.names, Relationship.isEntityName n = true := by
  induction texts generalizing inside with
  | nil => exact nofun
  | cons text texts ih =>
    have hnames := Effect.isEntityName_of_mem_names hinside text
    rw [effects, List.flatMap_cons]
    exact List.forall_mem_append.2 ⟨hnames, ih fun n hn =>
      (Effect.mem_names_of_next hn).elim (hnames n) (hinside n)⟩

/-- What is known about an entity can be written down: its title fits between brackets, and no
attribute begins like a closing brace. -/
structure EntityContent.IsReadable (c : EntityContent) : Prop where
  title : ∀ title ∈ c.title, ']' ∉ title
  attributes : ∀ a ∈ c.attributes, isWord a.type = true

theorem EntityContent.IsReadable.onContent {c : EntityContent} (h : c.IsReadable)
    (inside : Option Text) (text : Text) :
    ((Effect.ofLine inside text).onContent name c).IsReadable := by
  cases heffect : Effect.ofLine inside text with
  | addAttribute owner a =>
    rw [Effect.onContent]
    split
    · have ha := Effect.ofLine?_of_addAttribute heffect
      refine ⟨h.title, List.forall_mem_append.2 ⟨h.attributes, List.forall_mem_singleton.2 ?_⟩⟩
      exact (Attribute.forall_ofWords? (P := fun _ => True) (fun _ _ => trivial)
        (fun _ _ => trivial) (Attribute.ofLine?_eq_some ha).2.2 a List.mem_cons_self).2
    · exact h
  | header header =>
    rw [Effect.onContent]
    split
    · have hread := Effect.ofLine?_of_header heffect
      refine ⟨fun title htitle => ?_, List.forall_mem_append.2 ⟨h.attributes,
        EntityHeader.isWord_of_mem_attributes hread⟩⟩
      rcases Option.or_eq_some_iff.1 htitle with htitle | ⟨-, htitle⟩
      exacts [EntityHeader.not_mem_title hread title htitle, h.title title htitle]
    · exact h
  | _ => exact h

theorem exists_of_mem_effects {inside : Option Text} {texts : List Text} {effect : Effect}
    (h : effect ∈ effects inside texts) : ∃ inside text, effect = Effect.ofLine inside text := by
  induction texts generalizing inside with
  | nil => cases h
  | cons text texts ih =>
    rcases List.mem_cons.1 h with h | h
    exacts [⟨inside, text, h⟩, ih h]

namespace View

variable {s : Source} {e : EntityRecord}

theorem isEntityName_of_mem (he : e ∈ (View.ofSource s).entities) :
    Relationship.isEntityName e.name = true := by
  have hmem : e.name ∈ (View.ofSource s).names := List.mem_map_of_mem he
  rw [names_ofSource] at hmem
  rcases mem_foldl_addName.1 hmem with hmem | hmem
  · cases hmem
  · have hnone : ∀ n ∈ (none : Option Text), Relationship.isEntityName n = true := nofun
    exact isEntityName_of_mem_effects hnone _ hmem

theorem isReadable_content (s : Source) (name : Text) :
    ((View.ofSource s).content name).IsReadable := by
  rw [content_ofSource]
  refine List.foldlRecOn _ _ (motive := EntityContent.IsReadable) ⟨nofun, nofun⟩
    fun c hc effect heffect => ?_
  obtain ⟨inside, text, rfl⟩ := exists_of_mem_effects heffect
  exact hc.onContent inside text

/-- An entity that is found in a source can be written down. -/
theorem isReadable_of_entity? (he : (View.ofSource s).entity? name = some e) :
    e.content.IsReadable := by
  have := isReadable_content s name
  rwa [content, he] at this

end View

end DiagramEditor.EntityRelation
