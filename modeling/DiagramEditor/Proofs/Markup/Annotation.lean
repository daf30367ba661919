import DiagramEditor.Markup.Annotation
import DiagramEditor.Markup.Reader
import DiagramEditor.Proofs.Lists
import DiagramEditor.Proofs.Text.Cut
import DiagramEditor.Proofs.Text.Trim
import Mathlib.Data.List.Find
import Mathlib.Order.WellFounded

/-!
# Annotations only put text in

However many elements are marked, the annotated markup is the old one with one text put in at each
place behind a name that `mark` found (`apply_ofMarks_eq_spliceFrom`): the places are all taken from
the old text, and since the last one is filled first, they stay right.
-/

namespace DiagramEditor

namespace Text

variable {a b s rest : Text} {n : Nat}

/-! ## Bytes -/

@[simp] theorem byteLength_nil : byteLength [] = 0 := rfl

@[simp] theorem byteLength_cons (c : Char) (s : Text) :
    byteLength (c :: s) = c.utf8Size + byteLength s := rfl

@[simp] theorem byteLength_append (a b : Text) :
    byteLength (a ++ b) = byteLength a + byteLength b := by
  induction a with
  | nil => simp
  | cons c a ih => rw [List.cons_append, byteLength_cons, byteLength_cons, ih, Nat.add_assoc]

theorem byteLength_pos (h : s ≠ []) : 0 < byteLength s := by
  obtain ⟨c, s, rfl⟩ := List.exists_cons_of_ne_nil h
  exact Nat.add_pos_left c.utf8Size_pos _

theorem dropBytes?_byteLength_append (front rest : Text) :
    dropBytes? (byteLength front) (front ++ rest) = some rest := by
  induction front with
  | nil => rw [byteLength_nil, List.nil_append, dropBytes?]
  | cons c front ih =>
    obtain ⟨k, hk⟩ := Nat.exists_eq_succ_of_ne_zero (Nat.ne_of_gt c.utf8Size_pos)
    have hle : c.utf8Size ≤ k + byteLength front + 1 := by omega
    rw [byteLength_cons, hk, Nat.succ_add, List.cons_append, dropBytes?, if_pos hle]
    rw [show k + byteLength front + 1 - c.utf8Size = byteLength front by omega, ih]

/-- Behind one more byte. -/
theorem dropBytes?_succ {front : Text} (h : byteLength front = n) (rest : Text) :
    dropBytes? (n + 1) (front ++ '<' :: rest) = some rest := by
  have hdrop := dropBytes?_byteLength_append (front ++ ['<']) rest
  rw [byteLength_append, h, List.append_assoc] at hdrop
  exact hdrop

theorem dropBytes?_eq_some_iff :
    dropBytes? n s = some rest ↔ ∃ front, s = front ++ rest ∧ byteLength front = n := by
  constructor
  · intro h
    fun_induction dropBytes? n s with
    | case1 s => exact ⟨[], Option.some.inj h, rfl⟩
    | case2 => cases h
    | case3 n c s hle ih =>
      obtain ⟨front, rfl, hfront⟩ := ih h
      exact ⟨c :: front, rfl, by rw [byteLength_cons, hfront]; omega⟩
    | case4 => cases h
  · rintro ⟨front, rfl, rfl⟩
    exact dropBytes?_byteLength_append front rest

/-- Fronts of a text are equal if they have as many bytes. -/
theorem front_eq_of_byteLength {a' b' : Text} (h : a ++ b = a' ++ b')
    (hbytes : byteLength a = byteLength a') : a = a' := by
  have hrest : some b = some b' := by
    rw [← dropBytes?_byteLength_append a b, h, hbytes, dropBytes?_byteLength_append]
  rw [Option.some.inj hrest] at h
  exact List.append_cancel_right h

/-- The last of the characters `c` is at one place only. -/
theorem front_eq_of_last {a' b' : Text} {c : Char} (h : a ++ c :: b = a' ++ c :: b') (hb : c ∉ b)
    (hb' : c ∉ b') : a = a' := by
  have hrev : b.reverse ++ c :: a.reverse = b'.reverse ++ c :: a'.reverse := by
    simpa using congrArg List.reverse h
  have hcut := congrArg (cutChar? c) hrev
  rw [cutChar?_append_cons (by simpa using hb), cutChar?_append_cons (by simpa using hb')] at hcut
  exact List.reverse_injective (Prod.mk.inj (Option.some.inj hcut)).2

/-- Of two fronts of a text, the one with fewer bytes is the front of the other. -/
theorem exists_append_of_byteLength_lt {a' b' : Text} (h : a ++ b = a' ++ b')
    (hbytes : byteLength a < byteLength a') : ∃ c, c ≠ [] ∧ a' = a ++ c := by
  rcases List.append_eq_append_iff.1 h with ⟨c, rfl, -⟩ | ⟨c, rfl, -⟩
  · refine ⟨c, ?_, rfl⟩
    rintro rfl
    simp at hbytes
  · rw [byteLength_append] at hbytes
    omega

theorem insertBytes_append (front insert rest : Text) :
    insertBytes (byteLength front) insert (front ++ rest) = front ++ insert ++ rest := by
  rw [insertBytes, dropBytes?_byteLength_append]
  simp only [before_self_append]

/-! ## Texts put in -/

/-- The text with `f p` put in behind its first `p` bytes, for each `p` in front of a character. The
first byte has the number `i`. -/
def spliceFrom (f : Nat → Text) : (i : Nat) → Text → Text
  | _, [] => []
  | i, c :: s => f i ++ c :: spliceFrom f (i + c.utf8Size) s

variable {f g : Nat → Text} {i : Nat}

theorem spliceFrom_append (f : Nat → Text) (i : Nat) (a b : Text) :
    spliceFrom f i (a ++ b) = spliceFrom f i a ++ spliceFrom f (i + byteLength a) b := by
  induction a generalizing i with
  | nil => rfl
  | cons c a ih =>
    rw [List.cons_append, spliceFrom, spliceFrom, ih, byteLength_cons, Nat.add_assoc,
      List.append_assoc, List.cons_append]

theorem spliceFrom_congr (h : ∀ p, i ≤ p → p < i + byteLength s → f p = g p) :
    spliceFrom f i s = spliceFrom g i s := by
  induction s generalizing i with
  | nil => rfl
  | cons c s ih =>
    have hsize := c.utf8Size_pos
    rw [byteLength_cons] at h
    rw [spliceFrom, spliceFrom, h i (Nat.le_refl i) (by omega),
      ih fun p hp hlt => h p (by omega) (by omega)]

theorem spliceFrom_eq_self (h : ∀ p, i ≤ p → f p = []) : spliceFrom f i s = s := by
  induction s generalizing i with
  | nil => rfl
  | cons c s ih =>
    rw [spliceFrom, h i (Nat.le_refl i), ih fun p hp => h p (Nat.le_of_add_right_le hp)]
    rfl

/-- What is put in at the first byte stands in front, if it is all. -/
theorem spliceFrom_of_first (hs : s ≠ []) (h : ∀ p, i < p → f p = []) :
    spliceFrom f i s = f i ++ s := by
  obtain ⟨c, s, rfl⟩ := List.exists_cons_of_ne_nil hs
  rw [spliceFrom, spliceFrom_eq_self fun p hp => h p (by have := c.utf8Size_pos; omega)]

/-- What the list has for the place. -/
def insertAt (inserts : List (Nat × Text)) (p : Nat) : Text :=
  ((inserts.find? (·.1 = p)).map Prod.snd).getD []

theorem insertAt_eq_nil {inserts : List (Nat × Text)} {p : Nat} (h : ∀ x ∈ inserts, x.1 ≠ p) :
    insertAt inserts p = [] := by
  rw [insertAt, List.find?_eq_none.2 (by simpa using h)]
  rfl

/-- Texts that are put in one after the other, from the end on, are all put in at the places that the
text had at first. -/
theorem foldl_insertBytes {inserts : List (Nat × Text)} (rest : Text)
    (hsorted : inserts.Pairwise fun x y => y.1 < x.1)
    (hborder : ∀ x ∈ inserts, ∃ front back, a = front ++ back ∧ byteLength front = x.1 ∧ back ≠ []) :
    inserts.foldl (fun out x => insertBytes x.1 x.2 out) (a ++ rest) =
      spliceFrom (insertAt inserts) 0 a ++ rest := by
  induction inserts generalizing a rest with
  | nil =>
    have hnone : spliceFrom (insertAt []) 0 a = a := spliceFrom_eq_self fun _ _ => rfl
    rw [hnone, List.foldl_nil]
  | cons x inserts ih =>
    obtain ⟨hx, hsorted⟩ := List.pairwise_cons.1 hsorted
    obtain ⟨front, back, rfl, hfront, hback⟩ := hborder x List.mem_cons_self
    -- The other places are further up, so they are borders in front of this one.
    have hborder' : ∀ y ∈ inserts, ∃ front' back',
        front = front' ++ back' ∧ byteLength front' = y.1 ∧ back' ≠ [] := by
      intro y hy
      obtain ⟨front', back', heq, hfront', -⟩ := hborder y (List.mem_cons_of_mem x hy)
      have hlt : byteLength front' < byteLength front := by
        rw [hfront, hfront']
        exact hx y hy
      obtain ⟨c, hc, rfl⟩ := exists_append_of_byteLength_lt heq.symm hlt
      exact ⟨front', c, rfl, hfront', hc⟩
    have hfirst : spliceFrom (insertAt (x :: inserts)) 0 front =
        spliceFrom (insertAt inserts) 0 front := by
      refine spliceFrom_congr fun p _ hlt => ?_
      have hne : x.1 ≠ p := by omega
      rw [insertAt, List.find?_cons_of_neg (by simpa using hne), insertAt]
    have hsecond : spliceFrom (insertAt (x :: inserts)) (byteLength front) back = x.2 ++ back := by
      rw [spliceFrom_of_first hback, hfront, insertAt, List.find?_cons_of_pos (by simp)]
      · rfl
      · intro p hp
        refine insertAt_eq_nil fun y hy => ?_
        rcases List.mem_cons.1 hy with rfl | hy
        · omega
        · have := hx y hy
          omega
    rw [List.foldl_cons, ← hfront, List.append_assoc, insertBytes_append, List.append_assoc,
      ih _ hsorted hborder', spliceFrom_append, Nat.zero_add, hfirst, hsecond]
    simp only [List.append_assoc]

/-- One character replaced everywhere. -/
theorem replaceAllIn_singleton {c : Char} {new : Text} (hn : s.length ≤ n) :
    replaceAllIn [c] new n s = s.flatMap fun d => if d = c then new else [d] := by
  induction s generalizing n with
  | nil => cases n <;> rfl
  | cons d s ih =>
    obtain ⟨m, rfl⟩ := Nat.exists_eq_add_of_le' (Nat.le_trans (Nat.le_add_left 1 s.length) hn)
    have hrest := ih (Nat.le_of_succ_le_succ hn)
    rw [replaceAllIn.eq_def, List.flatMap_cons, ← hrest]
    by_cases hd : d = c
    · subst hd
      simp [stripFront?]
    · simp [stripFront?, hd, Ne.symm hd]

theorem replaceAll_singleton (c : Char) (new s : Text) :
    replaceAll [c] new s = s.flatMap fun d => if d = c then new else [d] :=
  replaceAllIn_singleton (Nat.le_refl _)

end Text

namespace Markup

open Text Annotations

variable {markup name : Text} {t u : Tag} {marks : List (Tag × Text)} {p : Nat}

/-! ## Names in tags -/

theorem isNameChar_of_isName (h : isName name = true) : ∀ c ∈ name, isNameChar c = true := by
  cases name with
  | nil => cases h
  | cons c name =>
    rw [isName, Bool.and_eq_true] at h
    intro d hd
    rcases List.mem_cons.1 hd with rfl | hd
    · simp [isNameChar, h.1]
    · exact List.all_eq_true.1 h.2 d hd

theorem isNameChar_of_ofText? {n : Name} (h : Name.ofText? name = some n) :
    ∀ c ∈ name, isNameChar c = true := by
  have hjoin := join_splitOn ':' name
  rw [Name.ofText?] at h
  split at h
  · next base hsplit =>
    split at h
    · next hbase =>
      rw [hsplit, join_singleton] at hjoin
      exact hjoin ▸ isNameChar_of_isName hbase
    · cases h
  · next qualifier base hsplit =>
    split at h
    · next hnames =>
      rw [Bool.and_eq_true, Bool.or_eq_true] at hnames
      rw [hsplit, join_cons _ _ (List.cons_ne_nil _ _), join_singleton] at hjoin
      intro c hc
      rw [← hjoin, List.mem_append, List.mem_append, List.mem_singleton] at hc
      rcases hc with (hc | rfl) | hc
      · refine isNameChar_of_isName (hnames.1.resolve_left fun hempty => ?_) c hc
        rw [List.isEmpty_iff.1 hempty] at hc
        cases hc
      · decide
      · exact isNameChar_of_isName hnames.2 c hc
    · cases h
  · cases h

/-- Only one blank may stand inside of a name. -/
theorem eq_of_isNameChar_of_isSpace {c : Char} (hname : isNameChar c = true)
    (hspace : isSpace c = true) : c = '\u1680' :=
  of_isSpace (P := fun c => isNameChar c = true → c = '\u1680') (by decide) hspace hname

theorem endsTagName_iff {c : Char} (h : isNameChar c = true) :
    endsTagName c = true ↔ c = '\u1680' := by
  rw [endsTagName, Bool.or_eq_true, Bool.or_eq_true, beq_iff_eq, beq_iff_eq]
  constructor
  · rintro ((hspace | rfl) | rfl)
    · exact eq_of_isNameChar_of_isSpace h hspace
    · exact absurd h (by decide)
    · exact absurd h (by decide)
  · rintro rfl
    decide

namespace Tag

/-- The name in the tag: the run of name characters behind its `<`. -/
def written (markup : Text) (t : Tag) : Text :=
  ((dropBytes? (t.offset + 1) markup).getD []).takeWhile isNameChar

/-- The place right behind the name. -/
def nameEnd (markup : Text) (t : Tag) : Nat :=
  t.offset + 1 + byteLength (t.written markup)

/-- The tag stands in the text where it says: a `<`, the name, and then a blank or the end of the
tag. -/
def IsWritten (markup : Text) (t : Tag) : Prop :=
  ∃ front name c rest, markup = front ++ '<' :: (name ++ c :: rest) ∧ byteLength front = t.offset ∧
    Name.ofText? name = some t.name ∧ (isBlank c = true ∨ c = '/' ∨ c = '>')

/-- The part of the name that `mark` goes behind. -/
def cut (markup : Text) (t : Tag) : Text :=
  (t.written markup).takeWhile fun c => !endsTagName c

/-- The place that `mark` finds. -/
def place (markup : Text) (t : Tag) : Nat :=
  t.offset + 1 + byteLength (t.cut markup)

theorem cut_append_dropWhile (markup : Text) (t : Tag) :
    t.cut markup ++ (t.written markup).dropWhile (fun c => !endsTagName c) = t.written markup :=
  List.takeWhile_append_dropWhile

namespace IsWritten

/-- Where the tag is and what follows its name. -/
theorem shape (h : t.IsWritten markup) : ∃ front c rest,
    markup = front ++ '<' :: (t.written markup ++ c :: rest) ∧ byteLength front = t.offset ∧
      (∀ d ∈ t.written markup, isNameChar d = true) ∧ endsTagName c = true := by
  obtain ⟨front, name, c, rest, rfl, hoffset, hname, hc⟩ := h
  have hend : isNameChar c = false ∧ endsTagName c = true := by
    rcases hc with hc | rfl | rfl
    · simp only [isBlank, Bool.or_eq_true, beq_iff_eq] at hc
      rcases hc with ((rfl | rfl) | rfl) | rfl <;> decide
    · decide
    · decide
  have hall := isNameChar_of_ofText? hname
  have hwritten : t.written (front ++ '<' :: (name ++ c :: rest)) = name := by
    rw [written, dropBytes?_succ hoffset, Option.getD_some, List.takeWhile_append_of_pos hall,
      List.takeWhile_cons_of_neg (by simp [hend.1]), List.append_nil]
  refine ⟨front, c, rest, by rw [hwritten], hoffset, by rwa [hwritten], hend.2⟩

/-- The text around the place that `mark` finds. -/
theorem shape_place (h : t.IsWritten markup) : ∃ front back,
    markup = (front ++ '<' :: t.cut markup) ++ back ∧ byteLength front = t.offset ∧
      byteLength (front ++ '<' :: t.cut markup) = t.place markup ∧
      '<' ∉ t.cut markup ∧ back ≠ [] := by
  obtain ⟨front, c, rest, hmarkup, hoffset, hall, -⟩ := h.shape
  refine ⟨front, (t.written markup).dropWhile (fun c => !endsTagName c) ++ c :: rest, ?_, hoffset,
    ?_, fun hmem => ?_, by simp⟩
  · conv_lhs => rw [hmarkup, ← cut_append_dropWhile]
    simp only [List.append_assoc, List.cons_append]
  · rw [byteLength_append, byteLength_cons, hoffset, place, Nat.add_assoc]
    rfl
  · exact absurd (hall '<' (List.takeWhile_subset _ hmem)) (by decide)

theorem placeOf? (h : t.IsWritten markup) :
    Annotations.placeOf? markup t = some (t.place markup) := by
  obtain ⟨front, c, rest, hmarkup, hoffset, -, hc⟩ := h.shape
  have hdrop : dropBytes? (t.offset + 1) markup = some (t.written markup ++ c :: rest) := by
    conv_lhs => rw [hmarkup, dropBytes?_succ hoffset]
  have htake : (t.written markup ++ c :: rest).takeWhile (fun c => !endsTagName c) =
      t.cut markup := by
    rw [List.takeWhile_append, List.takeWhile_cons_of_neg (by simp [hc]), List.append_nil, cut]
    split
    · next hlength => exact (List.takeWhile_prefix _).eq_of_length hlength |>.symm
    · rfl
  rw [Annotations.placeOf?, hdrop, Option.map_some, htake, place]

/-- No two tags have the same place. -/
theorem offset_eq (ht : t.IsWritten markup) (hu : u.IsWritten markup)
    (h : t.place markup = u.place markup) : t.offset = u.offset := by
  obtain ⟨front, back, hmarkup, hoffset, hplace, hcut, -⟩ := ht.shape_place
  obtain ⟨front', back', hmarkup', hoffset', hplace', hcut', -⟩ := hu.shape_place
  have heq : front ++ '<' :: t.cut markup = front' ++ '<' :: u.cut markup :=
    front_eq_of_byteLength (hmarkup.symm.trans hmarkup') (by rw [hplace, hplace', h])
  -- In front of the place, the tag begins at the last `<`.
  rw [← hoffset, ← hoffset', front_eq_of_last heq hcut hcut']

theorem place_le_nameEnd (markup : Text) (t : Tag) : t.place markup ≤ t.nameEnd markup := by
  rw [place, nameEnd, ← cut_append_dropWhile, byteLength_append]
  omega

/-- The place is behind the name, unless a blank stands inside of it. -/
theorem place_eq_iff (h : t.IsWritten markup) :
    t.place markup = t.nameEnd markup ↔ '\u1680' ∉ t.written markup := by
  obtain ⟨-, -, -, -, -, hall, -⟩ := h.shape
  have hcut : t.place markup = t.nameEnd markup ↔ t.cut markup = t.written markup := by
    rw [place, nameEnd, Nat.add_left_cancel_iff]
    refine ⟨fun hbytes => ?_, congrArg byteLength⟩
    exact front_eq_of_byteLength
      ((cut_append_dropWhile markup t).trans (List.append_nil _).symm) hbytes
  rw [hcut, cut, List.takeWhile_eq_self_iff]
  constructor
  · intro hends hmem
    exact absurd (hends _ hmem) (by decide)
  · intro hmem d hd
    rw [Bool.not_eq_true', ← Bool.not_eq_true, endsTagName_iff (hall d hd)]
    exact ne_of_mem_of_not_mem hd hmem

/-- Behind the place goes the name on, if a blank stands inside of it. -/
theorem shape_of_mem (h : t.IsWritten markup) (hmem : '\u1680' ∈ t.written markup) :
    ∃ front c back, markup = front ++ c :: back ∧ byteLength front = t.place markup ∧ c ≠ ' ' := by
  obtain ⟨front, c, rest, hmarkup, hoffset, hall, -⟩ := h.shape
  have happend := cut_append_dropWhile markup t
  cases hdrop : (t.written markup).dropWhile fun c => !endsTagName c with
  | nil =>
    rw [hdrop, List.append_nil] at happend
    exact absurd hmem ((place_eq_iff h).1 (by rw [place, nameEnd, happend]))
  | cons d more =>
    rw [hdrop] at happend
    have hd : isNameChar d = true := hall d (happend ▸ by simp)
    refine ⟨front ++ '<' :: t.cut markup, d, more ++ c :: rest, ?_, ?_, ?_⟩
    · conv_lhs => rw [hmarkup, ← happend]
      simp only [List.append_assoc, List.cons_append]
    · rw [byteLength_append, byteLength_cons, hoffset, place, Nat.add_assoc]
      rfl
    · rintro rfl
      exact absurd hd (by decide)

end IsWritten

end Tag

namespace Annotations

/-! ## What the marks put in -/

/-- The mark is for an element that the markup gives no name, and `placeFor` tells this place for
the element. -/
def goesTo (placeFor : Tag → Option Nat) (p : Nat) (m : Tag × Text) : Bool :=
  (m.1.value? attributeName).isNone && decide (placeFor m.1 = some p)

/-- What the marks put in at a place: the name that the first of those for it gives. -/
def attributeAt (placeFor : Tag → Option Nat) (marks : List (Tag × Text)) (p : Nat) : Text :=
  ((marks.find? (goesTo placeFor p)).map fun m => attributeText m.2).getD []

/-- The markup with the first name for each marked element that has none, put in at the place that
`placeFor` tells, and with nothing else changed. -/
def annotated (placeFor : Tag → Nat) (markup : Text) (marks : List (Tag × Text)) : Text :=
  spliceFrom (attributeAt (fun t => some (placeFor t)) marks) 0 markup

variable {a : Annotations}

theorem find?_mark (m : Tag × Text) (p : Nat) :
    (mark markup a m.1 m.2).inserts.find? (·.1 = p) = (a.inserts.find? (·.1 = p)).or
      (if goesTo (placeOf? markup) p m then some (p, attributeText m.2) else none) := by
  rw [mark, goesTo]
  cases hnamed : m.1.value? attributeName with
  | some value => simp
  | none =>
    simp only [Option.isSome_none, Bool.false_eq_true, if_false, Option.isNone_none, Bool.true_and]
    cases hplace : placeOf? markup m.1 with
    | none => simp
    | some place =>
      simp only [Option.some.injEq, decide_eq_true_eq]
      by_cases hp : place = p
      · subst hp
        split
        · next hany =>
          obtain ⟨x, hx⟩ : ∃ x, a.inserts.find? (·.1 = place) = some x :=
            Option.isSome_iff_exists.1 (List.find?_isSome.2 (List.any_eq_true.1 hany))
          rw [hx, Option.some_or]
        · simp
      · split
        · rw [Option.or_none]
        · simp [hp]

theorem find?_foldl_mark (marks : List (Tag × Text)) (a : Annotations) (p : Nat) :
    (marks.foldl (fun a m => mark markup a m.1 m.2) a).inserts.find? (·.1 = p) =
      (a.inserts.find? (·.1 = p)).or
        ((marks.find? (goesTo (placeOf? markup) p)).map fun m => (p, attributeText m.2)) := by
  induction marks generalizing a with
  | nil => simp
  | cons m marks ih =>
    rw [List.foldl_cons, ih, find?_mark, Option.or_assoc, List.find?_cons]
    cases goesTo (placeOf? markup) p m <;> rfl

/-- Each place has what the first mark for it puts in. -/
theorem insertAt_ofMarks (markup : Text) (marks : List (Tag × Text)) :
    insertAt (ofMarks markup marks).inserts = attributeAt (placeOf? markup) marks := by
  funext p
  rw [insertAt, ofMarks, find?_foldl_mark, attributeAt]
  simp [Option.map_map, Function.comp_def]

theorem nodup_ofMarks (markup : Text) (marks : List (Tag × Text)) :
    ((ofMarks markup marks).inserts.map Prod.fst).Nodup := by
  refine List.foldlRecOn marks (fun a m => mark markup a m.1 m.2)
    (motive := fun a : Annotations => (a.inserts.map Prod.fst).Nodup) List.nodup_nil ?_
  intro a h m _
  rw [mark]
  split
  · exact h
  · split
    · exact h
    · next place _ =>
      split
      · exact h
      · next hany =>
        rw [List.map_append, List.map_singleton, ← List.concat_eq_append]
        refine List.Nodup.concat (fun hmem => hany ?_) h
        obtain ⟨x, hx, heq⟩ := List.mem_map.1 hmem
        exact List.any_eq_true.2 ⟨x, hx, by simpa using heq⟩

/-- Each insertion is at the place of a mark. -/
theorem exists_mark_of_mem {x : Nat × Text} (h : x ∈ (ofMarks markup marks).inserts) :
    ∃ m ∈ marks, placeOf? markup m.1 = some x.1 := by
  have hfind : ((ofMarks markup marks).inserts.find? (·.1 = x.1)).isSome = true :=
    List.find?_isSome.2 ⟨x, h, by simp⟩
  rw [ofMarks, find?_foldl_mark, List.find?_nil, Option.none_or, Option.isSome_map,
    List.find?_isSome] at hfind
  obtain ⟨m, hm, heq⟩ := hfind
  rw [goesTo, Bool.and_eq_true, decide_eq_true_eq] at heq
  exact ⟨m, hm, heq.2⟩

/-- Whatever is put in, is put in at the places that the old text has. -/
theorem apply_eq_spliceFrom (hnodup : (a.inserts.map Prod.fst).Nodup)
    (hborder : ∀ x ∈ a.inserts, ∃ front back,
      markup = front ++ back ∧ byteLength front = x.1 ∧ back ≠ []) :
    a.apply markup = spliceFrom (insertAt a.inserts) 0 markup := by
  have hperm := List.mergeSort_perm a.inserts fun x y => decide (y.1 ≤ x.1)
  have hsorted : (a.inserts.mergeSort fun x y => decide (y.1 ≤ x.1)).Pairwise
      fun x y => decide (y.1 ≤ x.1) := by
    refine List.pairwise_mergeSort (fun x y z hxy hyz => ?_) (fun x y => ?_) a.inserts
    · exact decide_eq_true (Nat.le_trans (of_decide_eq_true hyz) (of_decide_eq_true hxy))
    · rw [Bool.or_eq_true, decide_eq_true_eq, decide_eq_true_eq]
      exact Nat.le_total y.1 x.1
  have hstrict : (a.inserts.mergeSort fun x y => decide (y.1 ≤ x.1)).Pairwise
      fun x y => y.1 < x.1 := by
    have hne := List.pairwise_map.1 ((hperm.map Prod.fst).nodup_iff.2 hnodup)
    refine (hsorted.and hne).imp fun hxy => ?_
    exact Nat.lt_of_le_of_ne (of_decide_eq_true hxy.1) hxy.2.symm
  have hsame : insertAt (a.inserts.mergeSort fun x y => decide (y.1 ≤ x.1)) =
      insertAt a.inserts := by
    funext p
    rw [insertAt, insertAt, ← List.find?_eq_find?_of_perm hperm.symm]
    rintro x ⟨hx, hxp⟩ y ⟨hy, hyp⟩
    rw [decide_eq_true_eq] at hxp hyp
    exact List.inj_on_of_nodup_map hnodup hx hy (hxp.trans hyp.symm)
  have happly := foldl_insertBytes [] hstrict fun x hx => hborder x (hperm.mem_iff.1 hx)
  rw [List.append_nil, List.append_nil, hsame] at happly
  exact happly

/-- Each name goes to the place that `mark` finds for its element. -/
theorem apply_ofMarks_eq_annotated (hwritten : ∀ m ∈ marks, m.1.IsWritten markup) :
    (ofMarks markup marks).apply markup = annotated (·.place markup) markup marks := by
  rw [apply_eq_spliceFrom (nodup_ofMarks markup marks), insertAt_ofMarks, annotated]
  · refine spliceFrom_congr fun p _ _ => ?_
    rw [attributeAt, attributeAt, List.find?_congr fun m hm => ?_]
    rw [goesTo, goesTo, (hwritten m hm).placeOf?]
  · intro x hx
    obtain ⟨m, hm, hplace⟩ := exists_mark_of_mem hx
    obtain ⟨front, back, hmarkup, -, hbytes, -, hback⟩ := (hwritten m hm).shape_place
    rw [(hwritten m hm).placeOf?, Option.some.injEq] at hplace
    exact ⟨_, back, hmarkup, hbytes.trans hplace, hback⟩

/-! ## The order of the marks -/

variable {placeFor : Tag → Option Nat} {m : Tag × Text} {marks' : List (Tag × Text)}

theorem goesTo_congr {m' : Tag × Text} (h : m.1 = m'.1) :
    goesTo placeFor p m = goesTo placeFor p m' := by
  rw [goesTo, goesTo, h]

/-- The first mark for a place is the first one of its element. -/
theorem find?_tag_of_goesTo (h : marks.find? (goesTo placeFor p) = some m) :
    marks.find? (·.1 = m.1) = some m := by
  rw [List.find?_eq_some_iff_append] at h ⊢
  obtain ⟨hm, before, after, rfl, hbefore⟩ := h
  refine ⟨by simp, before, after, rfl, fun x hx => ?_⟩
  rw [Bool.not_eq_true', decide_eq_false_iff_not]
  intro heq
  have hnot := hbefore x hx
  rw [goesTo_congr heq, hm] at hnot
  cases hnot

/-- The marked elements are the same if their first marks are. -/
theorem exists_mark_of_find?_eq (h : ∀ t, marks'.find? (·.1 = t) = marks.find? (·.1 = t))
    (hm : m ∈ marks') : ∃ m' ∈ marks, m'.1 = m.1 := by
  have hsome : (marks'.find? (·.1 = m.1)).isSome = true := List.find?_isSome.2 ⟨m, hm, by simp⟩
  obtain ⟨m', hm'⟩ := Option.isSome_iff_exists.1 hsome
  rw [h m.1] at hm'
  exact ⟨m', List.mem_of_find?_eq_some hm', by simpa using List.find?_some hm'⟩

/-- What is put in at a place does not depend on the marks of other elements. -/
theorem find?_goesTo_congr
    (hone : ∀ m ∈ marks, ∀ m' ∈ marks, goesTo placeFor p m = true → goesTo placeFor p m' = true →
      m.1 = m'.1)
    (h : ∀ t, marks'.find? (·.1 = t) = marks.find? (·.1 = t)) :
    marks'.find? (goesTo placeFor p) = marks.find? (goesTo placeFor p) := by
  cases hfind : marks.find? (goesTo placeFor p) with
  | none =>
    rw [List.find?_eq_none] at hfind ⊢
    intro m' hm' hgoes
    obtain ⟨m, hm, htag⟩ := exists_mark_of_find?_eq h hm'
    exact hfind m hm ((goesTo_congr htag).trans hgoes)
  | some m =>
    have hgoes := List.find?_some hfind
    have hfirst := find?_tag_of_goesTo hfind
    have hm' : m ∈ marks' := List.mem_of_find?_eq_some ((h m.1).trans hfirst)
    obtain ⟨m', hfind'⟩ : ∃ m', marks'.find? (goesTo placeFor p) = some m' :=
      Option.isSome_iff_exists.1 (List.find?_isSome.2 ⟨m, hm', hgoes⟩)
    have hfirst' := (h m'.1).symm.trans (find?_tag_of_goesTo hfind')
    have htag := hone m (List.mem_of_find?_eq_some hfind) m' (List.mem_of_find?_eq_some hfirst')
      hgoes (List.find?_some hfind')
    rw [hfind', ← hfirst', ← htag, hfirst]

/-- Only the first mark of each element counts, and not the order in which elements are marked. -/
theorem apply_ofMarks_congr (hwritten : ∀ m ∈ marks, m.1.IsWritten markup)
    (hdistinct : ∀ m ∈ marks, ∀ m' ∈ marks, m.1.offset = m'.1.offset → m.1 = m'.1)
    (h : ∀ t, marks'.find? (·.1 = t) = marks.find? (·.1 = t)) :
    (ofMarks markup marks').apply markup = (ofMarks markup marks).apply markup := by
  have hwritten' : ∀ m ∈ marks', m.1.IsWritten markup := by
    intro m' hm'
    obtain ⟨m, hm, htag⟩ := exists_mark_of_find?_eq h hm'
    exact htag ▸ hwritten m hm
  rw [apply_ofMarks_eq_annotated hwritten, apply_ofMarks_eq_annotated hwritten', annotated, annotated]
  refine spliceFrom_congr fun p _ _ => ?_
  rw [attributeAt, attributeAt, find?_goesTo_congr (fun m hm m' hm' hgoes hgoes' => ?_) h]
  simp only [goesTo, Bool.and_eq_true, decide_eq_true_eq, Option.some.injEq] at hgoes hgoes'
  exact hdistinct m hm m' hm'
    ((hwritten m hm).offset_eq (hwritten m' hm') (hgoes.2.trans hgoes'.2.symm))

/-! ## Where the names end -/

/-- The place for a mark is the one right behind the name of its element, or an earlier one if a blank
stands inside of the name. -/
theorem goesTo_place (hm : m.1.IsWritten markup)
    (h : m.1.value? attributeName = none → '\u1680' ∈ m.1.written markup → p < m.1.place markup) :
    goesTo (fun t => some (t.place markup)) p m = goesTo (fun t => some (t.nameEnd markup)) p m := by
  rw [goesTo, goesTo]
  cases hvalue : m.1.value? attributeName with
  | some value => rfl
  | none =>
    by_cases hmem : '\u1680' ∈ m.1.written markup
    · have hlt := h hvalue hmem
      have hle := Tag.IsWritten.place_le_nameEnd markup m.1
      rw [decide_eq_false (by simpa using Nat.ne_of_gt hlt),
        decide_eq_false (by simpa using Nat.ne_of_gt (Nat.lt_of_lt_of_le hlt hle))]
    · rw [(Tag.IsWritten.place_eq_iff hm).2 hmem]

/-- The names are put in right behind the names of their tags exactly if in no such tag a blank
stands inside of the name. -/
theorem annotated_place_eq_iff (hwritten : ∀ m ∈ marks, m.1.IsWritten markup)
    (hdistinct : ∀ m ∈ marks, ∀ m' ∈ marks, m.1.offset = m'.1.offset → m.1 = m'.1) :
    annotated (·.place markup) markup marks = annotated (·.nameEnd markup) markup marks ↔
      ∀ m ∈ marks, m.1.value? attributeName = none → '\u1680' ∉ m.1.written markup := by
  rw [annotated, annotated]
  constructor
  · intro heq
    by_contra hnot
    -- The first of the broken names, by its place.
    obtain ⟨m, ⟨hm, hvalue, hmem⟩, hmin⟩ :=
      (measure fun m : Tag × Text => m.1.place markup).wf.has_min
        {m | m ∈ marks ∧ m.1.value? attributeName = none ∧ '\u1680' ∈ m.1.written markup}
        (by simpa [Set.Nonempty] using hnot)
    have hfirst : ∀ m' ∈ marks, m'.1.value? attributeName = none → '\u1680' ∈ m'.1.written markup →
        m.1.place markup ≤ m'.1.place markup := fun m' hm' hvalue' hmem' =>
      Nat.le_of_not_lt (hmin m' ⟨hm', hvalue', hmem'⟩)
    obtain ⟨front, c, back, hmarkup, hbytes, hc⟩ := (hwritten m hm).shape_of_mem hmem
    -- Up to there, the same is put in.
    have hfront : spliceFrom (attributeAt (fun t => some (t.place markup)) marks) 0 front =
        spliceFrom (attributeAt (fun t => some (t.nameEnd markup)) marks) 0 front := by
      refine spliceFrom_congr fun p _ hp => ?_
      rw [Nat.zero_add, hbytes] at hp
      rw [attributeAt, attributeAt, List.find?_congr fun m' hm' =>
        goesTo_place (hwritten m' hm') fun hvalue' hmem' =>
          Nat.lt_of_lt_of_le hp (hfirst m' hm' hvalue' hmem')]
    -- There, an attribute begins on the one side, and the name goes on on the other.
    have hthere : ∃ id, attributeAt (fun t => some (t.place markup)) marks (m.1.place markup) =
        attributeText id := by
      have hgoes : goesTo (fun t => some (t.place markup)) (m.1.place markup) m = true := by
        rw [goesTo, hvalue]
        simp
      obtain ⟨m', hm'⟩ := Option.isSome_iff_exists.1 (List.find?_isSome.2 ⟨m, hm, hgoes⟩)
      exact ⟨m'.2, by rw [attributeAt, hm']; rfl⟩
    have hnone : attributeAt (fun t => some (t.nameEnd markup)) marks (m.1.place markup) = [] := by
      rw [attributeAt, List.find?_eq_none.2]
      · rfl
      · intro m' hm' hgoes
        simp only [goesTo, Bool.and_eq_true, Option.isNone_iff_eq_none, Option.some.injEq,
          decide_eq_true_eq] at hgoes
        obtain ⟨hvalue', hend⟩ := hgoes
        have hplace := Tag.IsWritten.place_eq_iff (hwritten m' hm')
        by_cases hmem' : '\u1680' ∈ m'.1.written markup
        · have hle := Tag.IsWritten.place_le_nameEnd markup m'.1
          have hge := hfirst m' hm' hvalue' hmem'
          exact hplace.1 (by omega) hmem'
        · have hoffset := (hwritten m' hm').offset_eq (hwritten m hm) ((hplace.2 hmem').trans hend)
          exact hmem' (hdistinct m' hm' m hm hoffset ▸ hmem)
    obtain ⟨id, hid⟩ := hthere
    rw [hmarkup, spliceFrom_append, spliceFrom_append, ← hmarkup, hfront, Nat.zero_add, hbytes,
      spliceFrom, spliceFrom, hid, hnone] at heq
    exact hc (List.cons.inj (List.append_cancel_left heq)).1.symm
  · intro hplain
    refine spliceFrom_congr fun p _ _ => ?_
    rw [attributeAt, attributeAt, List.find?_congr fun m hm =>
      goesTo_place (hwritten m hm) fun hvalue hmem => absurd hmem (hplain m hm hvalue)]

/-! ## Values between quotes -/

/-- A character as it stands between double quotes. -/
def escapeChar (c : Char) : Text :=
  if c = '&' then "&amp;".toList
  else if c = '<' then "&lt;".toList
  else if c = '"' then "&quot;".toList
  else [c]

/-- None of the three replacements finds what another one has written. -/
theorem escape_eq_flatMap (value : Text) : escape value = value.flatMap escapeChar := by
  rw [escape, replaceAll_singleton, replaceAll_singleton, replaceAll_singleton, List.flatMap_assoc,
    List.flatMap_assoc]
  congr 1
  funext c
  rw [escapeChar]
  by_cases hamp : c = '&'
  · subst hamp
    rfl
  · by_cases hlt : c = '<'
    · subst hlt
      rfl
    · simp only [hamp, hlt, if_false, List.flatMap_cons, List.flatMap_nil, List.append_nil]

/-- The value ends at the quote behind it, and no markup begins in it. -/
theorem not_mem_escape {c : Char} (hc : c = '"' ∨ c = '<') (value : Text) : c ∉ escape value := by
  rw [escape_eq_flatMap, List.mem_flatMap]
  rintro ⟨d, -, hd⟩
  rw [escapeChar] at hd
  split at hd
  · rcases hc with rfl | rfl <;> exact absurd hd (by decide)
  · split at hd
    · rcases hc with rfl | rfl <;> exact absurd hd (by decide)
    · next hlt =>
      split at hd
      · rcases hc with rfl | rfl <;> exact absurd hd (by decide)
      · next hquote =>
        obtain rfl := List.mem_singleton.1 hd
        exact hc.elim hquote hlt

/-- The characters that the text names, if it names no entities. -/
def decode? (s : Text) : Option Text := do
  (← Piece.ofText? s).mapM fun
    | .char c => some c
    | .reference c => some c
    | .entity _ => none

/-- A word between an ampersand and a semicolon is read as a reference. -/
theorem ofTextFrom?_pending {body word : Text} (hword : ';' ∉ word) (rest : Text) :
    Piece.ofTextFrom? (some body) (word ++ ';' :: rest) =
      (Piece.ofReference? (body.reverse ++ word)).bind fun piece =>
        (Piece.ofTextFrom? none rest).map (piece :: ·) := by
  induction word generalizing body with
  | nil =>
    rw [List.nil_append, List.append_nil, Piece.ofTextFrom?]
    simp [Option.map_eq_bind]
  | cons c word ih =>
    rw [List.mem_cons, not_or] at hword
    rw [List.cons_append, Piece.ofTextFrom?, ih hword.2, List.reverse_cons, List.append_assoc,
      List.singleton_append]
    exact fun h => hword.1 h.symm

theorem ofTextFrom?_escapeChar (c : Char) (rest : Text) :
    ∃ piece : Piece, (piece = .char c ∨ piece = .reference c) ∧
      Piece.ofTextFrom? none (escapeChar c ++ rest) =
        (Piece.ofTextFrom? none rest).map (piece :: ·) := by
  have hnamed : ∀ word : Text, ';' ∉ word → Piece.ofReference? word = some (.reference c) →
      Piece.ofTextFrom? none ('&' :: (word ++ ';' :: rest)) =
        (Piece.ofTextFrom? none rest).map (.reference c :: ·) := by
    intro word hword hread
    rw [Piece.ofTextFrom?, ofTextFrom?_pending hword, List.reverse_nil, List.nil_append, hread]
    rfl
  rw [escapeChar]
  split
  · next h =>
    subst h
    exact ⟨_, .inr rfl, hnamed "amp".toList (by decide) (by decide)⟩
  · next hamp =>
    split
    · next h =>
      subst h
      exact ⟨_, .inr rfl, hnamed "lt".toList (by decide) (by decide)⟩
    · split
      · next h =>
        subst h
        exact ⟨_, .inr rfl, hnamed "quot".toList (by decide) (by decide)⟩
      · refine ⟨.char c, .inl rfl, ?_⟩
        rw [List.singleton_append, Piece.ofTextFrom?]
        exact hamp

/-- The value is read back as it was. -/
theorem decode?_escape (value : Text) : decode? (escape value) = some value := by
  rw [escape_eq_flatMap]
  induction value with
  | nil => rfl
  | cons c value ih =>
    obtain ⟨piece, hpiece, hread⟩ := ofTextFrom?_escapeChar c (value.flatMap escapeChar)
    rw [decode?, Piece.ofText?] at ih ⊢
    rw [List.flatMap_cons, hread]
    cases hrest : Piece.ofTextFrom? none (value.flatMap escapeChar) with
    | none => simp [hrest] at ih
    | some pieces =>
      rw [hrest] at ih
      rcases hpiece with rfl | rfl <;> simp_all

/-! ## The whole -/

/-- Annotating only puts text in. For tags that stand in the markup, each at a place of its own, the
first name for each element that has none is put in at its place, and nothing else changes. The place
is the end of the name exactly where no blank stands inside of it. Only the first name of each
element counts, so the order in which the elements are marked does not; and the name is read back as
it was. -/
theorem apply_ofMarks (hwritten : ∀ m ∈ marks, m.1.IsWritten markup)
    (hdistinct : ∀ m ∈ marks, ∀ m' ∈ marks, m.1.offset = m'.1.offset → m.1 = m'.1) :
    (ofMarks markup marks).apply markup = annotated (·.place markup) markup marks ∧
      ((ofMarks markup marks).apply markup = annotated (·.nameEnd markup) markup marks ↔
        ∀ m ∈ marks, m.1.value? attributeName = none → '\u1680' ∉ m.1.written markup) ∧
      (∀ marks' : List (Tag × Text), (∀ t, marks'.find? (·.1 = t) = marks.find? (·.1 = t)) →
        (ofMarks markup marks').apply markup = (ofMarks markup marks).apply markup) ∧
      ∀ value, decode? (escape value) = some value ∧ '"' ∉ escape value ∧ '<' ∉ escape value := by
  refine ⟨apply_ofMarks_eq_annotated hwritten, ?_,
    fun marks' => apply_ofMarks_congr hwritten hdistinct, fun value => ?_⟩
  · rw [apply_ofMarks_eq_annotated hwritten, annotated_place_eq_iff hwritten hdistinct]
  · exact ⟨decode?_escape value, not_mem_escape (.inl rfl) value, not_mem_escape (.inr rfl) value⟩

/-- An element inside of one whose name has two bytes is marked twice and in front of it, and another
one has a name already. -/
theorem apply_ofMarks_sample :
    let markup := "<é><g a='1'/>é<r data-id='x'/></é>".toList
    let outer : Tag := ⟨0, ⟨[], "é".toList⟩, []⟩
    let inner : Tag := ⟨4, ⟨[], "g".toList⟩, [(⟨[], "a".toList⟩, "1".toList)]⟩
    let named : Tag := ⟨16, ⟨[], "r".toList⟩, [(⟨[], "data-id".toList⟩, "x".toList)]⟩
    let marks := [(inner, "a\"b".toList), (outer, "p".toList), (inner, "q".toList),
      (named, "r".toList)]
    (∀ m ∈ marks, m.1.IsWritten markup) ∧
      (∀ m ∈ marks, ∀ m' ∈ marks, m.1.offset = m'.1.offset → m.1 = m'.1) ∧
      (ofMarks markup marks).apply markup =
        "<é data-id=\"p\"><g data-id=\"a&quot;b\" a='1'/>é<r data-id='x'/></é>".toList ∧
      (ofMarks markup marks).apply markup = annotated (·.nameEnd markup) markup marks ∧
      (ofMarks markup [(named, "r".toList), (outer, "p".toList), (inner, "a\"b".toList)]).apply
        markup = (ofMarks markup marks).apply markup := by
  intro markup outer inner named marks
  have hwritten : ∀ m ∈ marks, m.1.IsWritten markup := by
    have hinner : inner.IsWritten markup := ⟨"<é>".toList, "g".toList, ' ',
      "a='1'/>é<r data-id='x'/></é>".toList, by decide, by decide, by decide, by decide⟩
    have houter : outer.IsWritten markup := ⟨[], "é".toList, '>',
      "<g a='1'/>é<r data-id='x'/></é>".toList, by decide, by decide, by decide, by decide⟩
    have hnamed : named.IsWritten markup := ⟨"<é><g a='1'/>é".toList, "r".toList, ' ',
      "data-id='x'/></é>".toList, by decide, by decide, by decide, by decide⟩
    simp [marks, hinner, houter, hnamed]
  have hdistinct : ∀ m ∈ marks, ∀ m' ∈ marks, m.1.offset = m'.1.offset → m.1 = m'.1 := by decide
  obtain ⟨hplaces, hends, horder, -⟩ := apply_ofMarks hwritten hdistinct
  refine ⟨hwritten, hdistinct, ?_, hends.2 (by decide +kernel), horder _ fun t => ?_⟩
  · rw [hplaces]
    decide +kernel
  · simp only [marks, List.find?_cons, List.find?_nil]
    by_cases houter : outer = t
    · subst houter
      decide
    · by_cases hinner : inner = t
      · subst hinner
        decide
      · simp [houter, hinner]

/-- A name with a blank inside is broken in two, and what comes out is no markup. -/
theorem not_apply_ofMarks :
    let markup := "<svg><g\u1680x/></svg>".toList
    let t : Tag := ⟨5, ⟨[], "g\u1680x".toList⟩, []⟩
    (Tree.ofText? false markup).map (fun tree => tree.elements.map (·.tag)) =
        some [⟨0, ⟨[], "svg".toList⟩, []⟩, t] ∧
      t.IsWritten markup ∧
      (ofMarks markup [(t, ['n'])]).apply markup = "<svg><g data-id=\"n\"\u1680x/></svg>".toList ∧
      annotated (·.nameEnd markup) markup [(t, ['n'])] =
        "<svg><g\u1680x data-id=\"n\"/></svg>".toList ∧
      (Tree.ofText? false ((ofMarks markup [(t, ['n'])]).apply markup)).isNone = true := by
  intro markup t
  have hwritten : t.IsWritten markup := ⟨"<svg>".toList, "g\u1680x".toList, '/', "></svg>".toList,
    by decide, by decide, by decide, by decide⟩
  have happly : (ofMarks markup [(t, ['n'])]).apply markup =
      "<svg><g data-id=\"n\"\u1680x/></svg>".toList := by
    rw [apply_ofMarks_eq_annotated (by simpa using hwritten)]
    decide +kernel
  refine ⟨by decide +kernel, hwritten, happly, by decide +kernel, ?_⟩
  rw [happly]
  decide +kernel

end Annotations

end Markup

end DiagramEditor
