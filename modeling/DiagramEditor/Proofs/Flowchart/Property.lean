import DiagramEditor.Flowchart.Property
import DiagramEditor.Proofs.Text.Cut
import DiagramEditor.Proofs.Text.Trim

/-!
# Properties read back

Properties that were read are written so that they read the same again, unless the last value ends
in a semicolon (`ofText_toText`).

The commas that separate are those at depth zero of the parentheses, so a stretch is told from its
neighbors by two facts: no comma of it stands at depth zero (`CommaFree`), and it ends at the depth
zero at which it started (`depthAfter`). The written form joins the stretches again, each trimmed and
those left out that gave no property (`Written`).
-/

namespace DiagramEditor.Flowchart.Properties

open Text

variable {s t stretch : Text} {c : Char} {d : Nat} {properties : Properties}

/-- The depth behind one character. -/
def depthStep (d : Nat) (c : Char) : Nat :=
  if c = '(' then d + 1 else if c = ')' then d - 1 else d

/-- The depth of the parentheses at the end of the text, where `d` are open at its start. -/
def depthAfter (d : Nat) (s : Text) : Nat :=
  s.foldl depthStep d

/-- No comma of the text stands at depth zero, where `d` parentheses are open at its start. -/
def CommaFree : (d : Nat) → Text → Prop
  | _, [] => True
  | d, c :: s => (c = ',' → d ≠ 0) ∧ CommaFree (depthStep d c) s

theorem depthAfter_dense (d : Nat) (s : Text) : depthAfter d (dense s) = depthAfter d s := by
  induction s generalizing d with
  | nil => rfl
  | cons c s ih =>
    cases hc : isSpace c with
    | false => rw [dense_cons_of_not hc]; exact ih _
    | true =>
      have hne : c ≠ '(' ∧ c ≠ ')' := by
        constructor <;> rintro rfl <;> revert hc <;> decide
      rw [dense_cons_of_isSpace hc, ih]
      change depthAfter d s = depthAfter (depthStep d c) s
      rw [depthStep, if_neg hne.1, if_neg hne.2]

theorem commaFree_dense : CommaFree d (dense s) ↔ CommaFree d s := by
  induction s generalizing d with
  | nil => rfl
  | cons c s ih =>
    cases hc : isSpace c with
    | false => rw [dense_cons_of_not hc, CommaFree, CommaFree, ih]
    | true =>
      have hne : c ≠ '(' ∧ c ≠ ')' ∧ c ≠ ',' := by
        refine ⟨?_, ?_, ?_⟩ <;> rintro rfl <;> revert hc <;> decide
      rw [dense_cons_of_isSpace hc, ih, CommaFree, depthStep, if_neg hne.1, if_neg hne.2.1]
      exact ⟨fun h => ⟨fun he => absurd he hne.2.2, h⟩, And.right⟩

/-- Two texts that differ in blanks only are read alike. -/
theorem commaFree_of_dense_eq (h : dense s = dense t) (hs : CommaFree d s) : CommaFree d t := by
  rwa [← commaFree_dense, ← h, commaFree_dense]

theorem depthAfter_of_dense_eq (h : dense s = dense t) : depthAfter d s = depthAfter d t := by
  rw [← depthAfter_dense, h, depthAfter_dense]

/-! ## Splitting at commas -/

theorem splitCommas_cons (d : Nat) (c : Char) (s : Text) :
    splitCommas d (c :: s) =
      if c = ',' ∧ d = 0 then [] :: splitCommas d s
      else consFirst c (splitCommas (depthStep d c) s) := by
  rw [splitCommas, depthStep]
  by_cases h1 : c = '('
  · subst h1; simp
  · by_cases h2 : c = ')'
    · subst h2; simp
    · simp [h1, h2]

theorem splitCommas_eq_singleton (h : CommaFree d s) : splitCommas d s = [s] := by
  induction s generalizing d with
  | nil => rfl
  | cons c s ih =>
    rw [splitCommas_cons, if_neg (fun hc => h.1 hc.1 hc.2), ih h.2]
    rfl

theorem splitCommas_append_comma (h : CommaFree d s) (hd : depthAfter d s = 0) (t : Text) :
    splitCommas d (s ++ ',' :: t) = s :: splitCommas 0 t := by
  induction s generalizing d with
  | nil =>
    obtain rfl : d = 0 := hd
    rw [List.nil_append, splitCommas_cons, if_pos ⟨rfl, rfl⟩]
  | cons c s ih =>
    rw [List.cons_append, splitCommas_cons, if_neg (fun hc => h.1 hc.1 hc.2), ih h.2 hd]
    rfl

/-- Stretches as they stand between separating commas: none holds one, and all but the last end
outside of parentheses. -/
structure AreStretches (stretches : List Text) : Prop where
  free : ∀ s ∈ stretches, CommaFree 0 s
  depth : ∀ s ∈ stretches.dropLast, depthAfter 0 s = 0

theorem AreStretches.nil : AreStretches [] := ⟨by simp, by simp⟩

theorem AreStretches.cons {rest : List Text} (hs : CommaFree 0 s)
    (hdepth : rest ≠ [] → depthAfter 0 s = 0) (hrest : AreStretches rest) :
    AreStretches (s :: rest) where
  free t ht := by
    rcases List.mem_cons.1 ht with rfl | ht
    exacts [hs, hrest.free t ht]
  depth t ht := by
    by_cases hnil : rest = []
    · subst hnil
      simp at ht
    · rw [List.dropLast_cons_of_ne_nil hnil] at ht
      rcases List.mem_cons.1 ht with rfl | ht
      exacts [hdepth hnil, hrest.depth t ht]

theorem AreStretches.of_cons {rest : List Text} (h : AreStretches (s :: rest)) :
    CommaFree 0 s ∧ (rest ≠ [] → depthAfter 0 s = 0) ∧ AreStretches rest := by
  refine ⟨h.free s List.mem_cons_self, fun hne => ?_, ?_, ?_⟩
  · exact h.depth s (by rw [List.dropLast_cons_of_ne_nil hne]; exact List.mem_cons_self)
  · exact fun t ht => h.free t (List.mem_cons_of_mem s ht)
  · intro t ht
    have hne : rest ≠ [] := by rintro rfl; simp at ht
    refine h.depth t ?_
    rw [List.dropLast_cons_of_ne_nil hne]
    exact List.mem_cons_of_mem s ht

theorem splitCommas_join {stretches : List Text} (h : AreStretches stretches)
    (hne : stretches ≠ []) : splitCommas 0 (join [','] stretches) = stretches := by
  induction stretches with
  | nil => contradiction
  | cons s rest ih =>
    obtain ⟨hfree, hdepth, hrest⟩ := h.of_cons
    by_cases hnil : rest = []
    · subst hnil
      rw [join_singleton, splitCommas_eq_singleton hfree]
    · rw [join_cons _ _ hnil, List.append_assoc, List.singleton_append,
        splitCommas_append_comma hfree (hdepth hnil), ih hrest hnil]

theorem splitCommas_stretches (d : Nat) (s : Text) :
    ∃ first rest, splitCommas d s = first :: rest ∧ CommaFree d first ∧
      (rest ≠ [] → depthAfter d first = 0) ∧ AreStretches rest := by
  induction s generalizing d with
  | nil => exact ⟨[], [], rfl, trivial, nofun, .nil⟩
  | cons c s ih =>
    rw [splitCommas_cons]
    obtain ⟨first, rest, heq, hfree, hdepth, hrest⟩ := ih (depthStep d c)
    split
    · next hc =>
      obtain ⟨rfl, rfl⟩ := hc
      rw [show depthStep 0 ',' = 0 from rfl] at heq hfree hdepth
      exact ⟨[], first :: rest, by rw [heq], trivial, fun _ => rfl, hrest.cons hfree hdepth⟩
    · next hc =>
      rw [heq]
      exact ⟨c :: first, rest, rfl, ⟨fun h0 h1 => hc ⟨h0, h1⟩, hfree⟩, hdepth, hrest⟩

theorem areStretches_splitCommas (s : Text) : AreStretches (splitCommas 0 s) := by
  obtain ⟨first, rest, heq, hfree, hdepth, hrest⟩ := splitCommas_stretches 0 s
  rw [heq]
  exact hrest.cons hfree hdepth

/-! ## Stretches and properties -/

/-- The stretches written for some properties: joined they are the written form, and read one after
the other they give the properties. -/
structure Written (stretches : List Text) (properties : Properties) : Prop where
  text : toText properties = join [','] stretches
  read : stretches.foldl addStretch [] = properties
  nil_iff : stretches = [] ↔ properties = []

theorem toText_cons (p : Text × Text) {rest : Properties} (hne : rest ≠ []) :
    toText (p :: rest) = p.1 ++ ':' :: p.2 ++ ',' :: toText rest := by
  have hmap : (rest.map fun p : Text × Text => p.1 ++ ':' :: p.2) ≠ [] := by simpa using hne
  rw [toText, List.map_cons, join_cons _ _ hmap, List.append_assoc]
  rfl

theorem toText_append (hne : properties ≠ []) (p : Text × Text) :
    toText (properties ++ [p]) = toText properties ++ ',' :: (p.1 ++ ':' :: p.2) := by
  induction properties with
  | nil => contradiction
  | cons q rest ih =>
    rw [List.cons_append, toText_cons q (by simp)]
    by_cases hnil : rest = []
    · subst hnil
      simp [toText]
    · rw [ih hnil, toText_cons q hnil]
      simp

theorem extendLast_cons (p : Text × Text) {rest : Properties} (hne : rest ≠ []) (more : Text) :
    extendLast more (p :: rest) = p :: extendLast more rest := by
  cases rest with
  | nil => contradiction
  | cons q rest => rfl

theorem extendLast_ne_nil (hne : properties ≠ []) (more : Text) :
    extendLast more properties ≠ [] := by
  cases properties with
  | nil => contradiction
  | cons p rest => cases rest <;> simp [extendLast]

theorem toText_extendLast (hne : properties ≠ []) (more : Text) :
    toText (extendLast more properties) = toText properties ++ ',' :: more := by
  induction properties with
  | nil => contradiction
  | cons p rest ih =>
    by_cases hnil : rest = []
    · subst hnil
      simp [toText, extendLast]
    · rw [extendLast_cons p hnil, toText_cons p (extendLast_ne_nil hnil more), ih hnil,
        toText_cons p hnil]
      simp

/-- A trimmed value behind a trimmed key that is not empty. -/
structure IsProperty (p : Text × Text) : Prop where
  key_ne_nil : p.1 ≠ []
  key_trimmed : IsTrimmed p.1
  value_trimmed : IsTrimmed p.2

theorem isProperty_extendLast {more : Text} (hmore : IsTrimmed more)
    (h : ∀ p ∈ properties, IsProperty p) : ∀ p ∈ extendLast more properties, IsProperty p := by
  induction properties with
  | nil => simp [extendLast]
  | cons q rest ih =>
    by_cases hnil : rest = []
    · subst hnil
      obtain ⟨hne, htrim, hvalue⟩ := h q List.mem_cons_self
      intro p hp
      obtain rfl := List.mem_singleton.1 hp
      refine ⟨hne, htrim, fun c hc => ?_, fun c hc => ?_⟩
      · rw [List.head?_append] at hc
        cases hq : q.2.head? with
        | none =>
          obtain rfl : ',' = c := by simpa [hq] using hc
          decide
        | some d => exact hvalue.head c (by simpa [hq] using hc)
      · rw [List.getLast?_append] at hc
        cases more with
        | nil =>
          obtain rfl : ',' = c := by simpa using hc
          decide
        | cons d ds => exact hmore.last c (by simpa [List.getLast?_cons] using hc)
    · rw [extendLast_cons q hnil]
      intro p hp
      rcases List.mem_cons.1 hp with rfl | hp
      exacts [h _ List.mem_cons_self, ih (fun p hp => h p (List.mem_cons_of_mem q hp)) p hp]

theorem isProperty_addStretch (h : ∀ p ∈ properties, IsProperty p) (stretch : Text) :
    ∀ p ∈ addStretch properties stretch, IsProperty p := by
  rw [addStretch]
  split
  · next key value _ =>
    split
    · exact h
    · next hne =>
      intro p hp
      rcases List.mem_append.1 hp with hp | hp
      · exact h p hp
      · obtain rfl := List.mem_singleton.1 hp
        exact ⟨by simpa using hne, isTrimmed_trim key, isTrimmed_trim value⟩
  · exact isProperty_extendLast (isTrimmed_trim stretch) h

/-- One more stretch is written as one more stretch with the same parentheses and commas, or left
out. -/
theorem Written.addStretch {stretches : List Text} (h : Written stretches properties)
    (stretch : Text) :
    Written stretches (addStretch properties stretch) ∨
      ∃ written, dense written = dense stretch ∧
        Written (stretches ++ [written]) (addStretch properties stretch) := by
  cases hcut : cutChar? ':' stretch with
  | none =>
    have hadd : Properties.addStretch properties stretch = extendLast (trim stretch) properties := by
      rw [Properties.addStretch, hcut]
    rw [hadd]
    by_cases hnil : properties = []
    · subst hnil
      exact .inl h
    · refine .inr ⟨trim stretch, dense_trim stretch, ?_, ?_, ?_⟩
      · rw [toText_extendLast hnil, h.text, join_append_singleton (mt h.nil_iff.1 hnil),
          List.append_assoc, List.singleton_append]
      · have hcolon : cutChar? ':' (trim stretch) = none :=
          cutChar?_eq_none (not_mem_trim (cutChar?_eq_none_iff.1 hcut))
        rw [List.foldl_append, h.read, List.foldl_cons, List.foldl_nil, Properties.addStretch, hcolon]
        simp only [trim_trim]
      · simp [extendLast_ne_nil hnil]
  | some p =>
    obtain ⟨key, value⟩ := p
    obtain ⟨hs, hkey⟩ := cutChar?_eq_some hcut
    by_cases hblank : (trim key).isEmpty = true
    · have hadd : Properties.addStretch properties stretch = properties := by
        rw [Properties.addStretch, hcut]
        simp only [hblank, if_true]
      rw [hadd]
      exact .inl h
    · have hadd : Properties.addStretch properties stretch =
          properties ++ [(trim key, trim value)] := by
        rw [Properties.addStretch, hcut]
        simp only [hblank, if_false, Bool.false_eq_true]
      rw [hadd]
      refine .inr ⟨trim key ++ ':' :: trim value, ?_, ?_, ?_, ?_⟩
      · have hcons := dense_cons_of_not (c := ':') (by decide)
        rw [hs, dense_append, dense_append, hcons, hcons, dense_trim, dense_trim]
      · by_cases hnil : properties = []
        · have hstretches := h.nil_iff.2 hnil
          subst hnil hstretches
          simp [toText]
        · rw [toText_append hnil, h.text, join_append_singleton (mt h.nil_iff.1 hnil),
            List.append_assoc, List.singleton_append]
      · have hcolon := cutChar?_append_cons (not_mem_trim hkey) (trim value)
        rw [List.foldl_append, h.read, List.foldl_cons, List.foldl_nil, Properties.addStretch, hcolon]
        simp only [trim_trim, hblank, if_false, Bool.false_eq_true]
      · simp

/-- The stretches of a text, read into properties, are written as stretches again. -/
theorem Written.foldl {written : List Text} (h : Written written properties)
    (hwritten : ∀ s ∈ written, CommaFree 0 s ∧ depthAfter 0 s = 0) {stretches : List Text}
    (hstretches : AreStretches stretches) :
    ∃ written', AreStretches written' ∧
      Written written' (stretches.foldl Properties.addStretch properties) := by
  induction stretches generalizing written properties with
  | nil =>
    exact ⟨written, ⟨fun s hs => (hwritten s hs).1,
      fun s hs => (hwritten s (List.dropLast_subset _ hs)).2⟩, h⟩
  | cons stretch rest ih =>
    obtain ⟨hfree, hdepth, hrest⟩ := hstretches.of_cons
    rw [List.foldl_cons]
    by_cases hnil : rest = []
    · -- The last stretch may leave parentheses open.
      subst hnil
      rcases h.addStretch stretch with h' | ⟨s', hdense, h'⟩
      · exact ⟨written, ⟨fun s hs => (hwritten s hs).1,
          fun s hs => (hwritten s (List.dropLast_subset _ hs)).2⟩, h'⟩
      · refine ⟨written ++ [s'], ⟨?_, ?_⟩, h'⟩
        · intro s hs
          rcases List.mem_append.1 hs with hs | hs
          · exact (hwritten s hs).1
          · rw [List.mem_singleton.1 hs]
            exact commaFree_of_dense_eq hdense.symm hfree
        · intro s hs
          rw [List.dropLast_concat] at hs
          exact (hwritten s hs).2
    · rcases h.addStretch stretch with h' | ⟨s', hdense, h'⟩
      · exact ih h' hwritten hrest
      · refine ih h' ?_ hrest
        intro s hs
        rcases List.mem_append.1 hs with hs | hs
        · exact hwritten s hs
        · rw [List.mem_singleton.1 hs]
          exact ⟨commaFree_of_dense_eq hdense.symm hfree,
            (depthAfter_of_dense_eq hdense).trans (hdepth hnil)⟩

theorem isProperty_ofText (raw : Text) : ∀ p ∈ ofText raw, IsProperty p := by
  have hfold : ∀ (stretches : List Text) (properties : Properties),
      (∀ p ∈ properties, IsProperty p) →
        ∀ p ∈ stretches.foldl addStretch properties, IsProperty p := by
    intro stretches
    induction stretches with
    | nil => exact fun _ h => h
    | cons s rest ih => exact fun _ h => ih _ (isProperty_addStretch h s)
  exact hfold _ [] (by simp)

/-! ## Reading what was written -/

theorem head?_toText (h : ∀ p ∈ properties, IsProperty p) :
    ∀ c ∈ (toText properties).head?, isSpace c = false := by
  cases properties with
  | nil => simp [toText]
  | cons p rest =>
    obtain ⟨hne, htrim, -⟩ := h p List.mem_cons_self
    obtain ⟨c, key, hkey⟩ := List.exists_cons_of_ne_nil hne
    have hc := htrim.head c (by rw [hkey]; rfl)
    by_cases hnil : rest = []
    · subst hnil
      simpa [toText, hkey] using hc
    · simpa [toText_cons p hnil, hkey] using hc

/-- The written form ends in the last value, or in a colon when that value is empty. -/
theorem getLast?_toText (properties : Properties) :
    ∀ c ∈ (toText properties).getLast?, c = ':' ∨ ∃ p ∈ properties, c ∈ p.2.getLast? := by
  induction properties with
  | nil => simp [toText]
  | cons p rest ih =>
    intro c hc
    by_cases hnil : rest = []
    · subst hnil
      rw [toText, List.map_singleton, join_singleton, List.getLast?_append, List.getLast?_cons] at hc
      cases hp : p.2.getLast? with
      | none => exact .inl (by simpa [hp, eq_comm] using hc)
      | some d => exact .inr ⟨p, List.mem_cons_self, by simpa [hp] using hc⟩
    · have htext : toText rest ≠ [] := by
        obtain ⟨q, rest', rfl⟩ := List.exists_cons_of_ne_nil hnil
        by_cases hnil' : rest' = []
        · subst hnil'
          simp [toText]
        · simp [toText_cons q hnil']
      obtain ⟨d, ds, hd⟩ := List.exists_cons_of_ne_nil htext
      rw [toText_cons p hnil, List.getLast?_append, hd, List.getLast?_cons_cons, ← hd,
        List.getLast?_eq_some_getLast htext, Option.some_or,
        ← List.getLast?_eq_some_getLast htext] at hc
      rcases ih c hc with h | ⟨q, hq, h⟩
      exacts [.inl h, .inr ⟨q, List.mem_cons_of_mem p hq, h⟩]

theorem isTrimmed_toText (h : ∀ p ∈ properties, IsProperty p) : IsTrimmed (toText properties) := by
  refine ⟨head?_toText h, fun c hc => ?_⟩
  rcases getLast?_toText properties c hc with rfl | ⟨p, hp, hc⟩
  · decide
  · exact (h p hp).value_trimmed.last c hc

/-- Properties that are written as stretches are read back, unless the last value ends in a semicolon. -/
theorem Written.ofText_toText {written : List Text} (h : Written written properties)
    (hstretches : AreStretches written) (hproperties : ∀ p ∈ properties, IsProperty p)
    (hsemicolon : ∀ p ∈ properties, p.2.getLast? ≠ some ';') :
    ofText (toText properties) = properties := by
  have htrim := trim_eq_self (isTrimmed_toText hproperties)
  have hdrop : dropEndWhile (· == ';') (toText properties) = toText properties := by
    refine dropEndWhile_eq_self fun c hc => ?_
    rcases getLast?_toText _ c hc with rfl | ⟨p, hp, hc⟩
    · rfl
    · exact beq_false_of_ne fun h => hsemicolon p hp (h ▸ hc)
  rw [ofText, htrim, hdrop]
  by_cases hempty : written = []
  · rw [h.nil_iff.1 hempty]
    rfl
  · rw [h.text, splitCommas_join hstretches hempty, h.read]

/-- Properties that were read come back from their written form, unless the last value ends in a
semicolon. -/
theorem ofText_toText {raw : Text} (hsemicolon : ∀ p ∈ ofText raw, p.2.getLast? ≠ some ';') :
    ofText (toText (ofText raw)) = ofText raw := by
  have hstart : Written [] [] := ⟨rfl, rfl, by simp⟩
  obtain ⟨written, hstretches, hwritten⟩ := hstart.foldl (by simp)
    (areStretches_splitCommas (dropEndWhile (· == ';') (trim raw)))
  rw [← ofText] at hwritten
  exact hwritten.ofText_toText hstretches (isProperty_ofText raw) hsemicolon

end DiagramEditor.Flowchart.Properties
