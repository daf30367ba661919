import DiagramEditor.Proofs.EntityRelation.Line
import DiagramEditor.Proofs.Lists

/-!
# Attributes read back

The written form of an attribute is a row of words with one blank between two of them
(`Attribute.render_eq_join`): type, name, the keys as one word and the comment as another one. An
attribute whose type and name are such words is read off them with all keys and with its comment
(`Attribute.ofWords?_written`). A line with a brace is no line of an attribute, wherever the brace
stands, so a comment with a brace is written on a line that nothing is read from
(`Attribute.ofLine?_written`).
-/

namespace DiagramEditor.EntityRelation

open Text

variable {w word : Text}

/-! ## Keys -/

namespace AttributeKey

theorem ofText?_text (key : AttributeKey) : ofText? key.text = some key := by
  cases key <;> decide

/-- Keys with commas between them are a word of keys. -/
theorem listOfWord?_join {keys : List AttributeKey} (hne : keys ≠ []) :
    listOfWord? (join [','] (keys.map (·.text))) = some keys := by
  have hkey : ∀ key : AttributeKey, ',' ∉ key.text ∧ trim key.text = key.text ∧ key.text ≠ [] := by
    intro key
    cases key <;> decide
  have hsplit : splitOn ',' (join [','] (keys.map (·.text))) = keys.map (·.text) := by
    refine splitOn_join (by simpa using hne) fun field hfield => ?_
    obtain ⟨key, -, rfl⟩ := List.mem_map.1 hfield
    exact (hkey key).1
  have hparts : ((keys.map (·.text)).map trim).filter (fun part => !part.isEmpty) =
      keys.map (·.text) := by
    have htrim : (keys.map (·.text)).map trim = keys.map (·.text) := by
      rw [List.map_map]
      exact List.map_congr_left fun key _ => (hkey key).2.1
    rw [htrim]
    refine List.filter_eq_self.2 fun part hpart => ?_
    obtain ⟨key, -, rfl⟩ := List.mem_map.1 hpart
    simpa using (hkey key).2.2
  have hmap : (keys.map (·.text)).mapM ofText? = some keys := by
    rw [mapM_eq_some, List.map_map]
    exact List.map_congr_left fun key _ => ofText?_text key
  rw [listOfWord?, hsplit, hparts]
  simp [hmap, hne]

theorem join_text_plain {keys : List AttributeKey} (hne : keys ≠ []) :
    join [','] (keys.map (·.text)) ≠ [] ∧
      ∀ c ∈ join [','] (keys.map (·.text)), c ≠ '"' ∧ isSpace c = false := by
  have hkey : ∀ key : AttributeKey, 'K' ∈ key.text ∧ '"' ∉ key.text ∧ key.text.any isSpace = false := by
    intro key
    cases key <;> decide
  constructor
  · obtain ⟨key, hmem⟩ := List.exists_mem_of_ne_nil keys hne
    exact List.ne_nil_of_mem (mem_join_of_mem (List.mem_map_of_mem hmem) (hkey key).1)
  · intro c hc
    rcases List.mem_append.1 (join_subset _ _ hc) with hc | hc
    · rw [List.mem_singleton.1 hc]
      decide
    · obtain ⟨text, htext, hc⟩ := List.mem_flatten.1 hc
      obtain ⟨key, -, rfl⟩ := List.mem_map.1 htext
      obtain ⟨-, hquote, hspace⟩ := hkey key
      exact ⟨ne_of_mem_of_not_mem hc hquote, eq_false_of_any hspace hc⟩

/-- What begins with a quote is no word of keys. -/
theorem listOfWord?_quote (s : Text) : listOfWord? ('"' :: s) = none := by
  obtain ⟨field, fields, hsplit⟩ : ∃ field fields, splitOn ',' ('"' :: s) = ('"' :: field) :: fields := by
    rw [splitOn, splitWhere, if_neg (by decide)]
    obtain ⟨field, fields, hrest⟩ := List.exists_cons_of_ne_nil (splitWhere_ne_nil (· == ',') s)
    exact ⟨field, fields, by rw [hrest]; rfl⟩
  have hhead : (trim ('"' :: field)).head? = some '"' := by
    rw [head?_trim, trimStart_eq_self (by rintro _ ⟨⟩; decide)]
    rfl
  obtain ⟨rest, hrest⟩ := List.head?_eq_some_iff.1 hhead
  -- No key begins with a quote, so the first part is none.
  have hfirst : ofText? ('"' :: rest) = none := by
    rw [ofText?, List.find?_eq_none]
    intro key _
    cases key <;> simp [text]
  rw [listOfWord?, hsplit, List.map_cons, hrest, List.filter_cons_of_pos rfl]
  simp [List.mapM_cons, hfirst]

end AttributeKey

/-! ## Words -/

namespace Attribute

/-- The words of the written form. -/
def written (a : Attribute) : List Text :=
  a.type :: a.name ::
    ((if a.keys.isEmpty then [] else [join [','] (a.keys.map (·.text))]) ++
      (a.comment.map quote).toList)

theorem render_eq_join (a : Attribute) : a.render = join [' '] a.written := by
  cases hkeys : a.keys with
  | nil => cases hcomment : a.comment <;> simp [render, written, join, hkeys, hcomment]
  | cons key keys => cases hcomment : a.comment <;> simp [render, written, join, hkeys, hcomment]

/-- The text is a word that may stand for a type or a name. -/
structure IsName (s : Text) : Prop where
  isWord : isWord s = true
  plain : ∀ c ∈ s, isSpace c = false ∧ c ∉ ['"', '\x7b', '\x7d']

/-- The attribute has a type and a name, and a comment without the entity of a quote. -/
structure IsWritable (a : Attribute) : Prop where
  type : IsName a.type
  name : IsName a.name
  comment : ∀ text ∈ a.comment, ¬quoteEntity <:+: text

variable {a : Attribute}

theorem isName_of_all (hword : isWord word = true)
    (hall : (word.all fun c => !isSpace c && decide (c ∉ ['"', '\x7b', '\x7d'])) = true) :
    IsName word where
  isWord := hword
  plain c hc := by simpa using List.all_eq_true.1 hall c hc

theorem IsName.isClosed (h : IsName word) : word ≠ [] ∧ IsClosed isSpace word := by
  refine ⟨?_, isClosed_of_forall fun c hc => ⟨?_, (h.plain c hc).1⟩⟩
  · rintro rfl
    cases h.isWord
  · rintro rfl
    exact (h.plain '"' hc).2 List.mem_cons_self

/-- What holds of the type, the name, the word of keys and the quoted comment holds of every word. -/
theorem forall_mem_written {P : Text → Prop} (htype : P a.type) (hname : P a.name)
    (hkeys : a.keys ≠ [] → P (join [','] (a.keys.map (·.text))))
    (hcomment : ∀ text ∈ a.comment, P (quote text)) : ∀ word ∈ a.written, P word := by
  refine List.forall_mem_cons.2 ⟨htype, List.forall_mem_cons.2 ⟨hname, ?_⟩⟩
  refine List.forall_mem_append.2 ⟨?_, fun word hword => ?_⟩
  · split
    · exact nofun
    · next hne => exact List.forall_mem_singleton.2 (hkeys (by simpa using hne))
  · obtain ⟨text, htext, rfl⟩ := Option.map_eq_some_iff.1 (Option.mem_toList.1 hword)
    exact hcomment text htext

/-- The words of a written attribute come back as words. -/
theorem wordsOutside_render (h : a.IsWritable) : wordsOutside a.render = a.written := by
  rw [render_eq_join]
  refine wordsOutside_join (List.cons_ne_nil _ _) ?_
  refine forall_mem_written h.type.isClosed h.name.isClosed (fun hne => ?_) fun text _ => ?_
  · have hplain := AttributeKey.join_text_plain hne
    exact ⟨hplain.1, isClosed_of_forall hplain.2⟩
  · exact ⟨List.cons_ne_nil _ _, isClosed_quote isSpace text⟩

/-- A comment is no key. -/
theorem keysOfWords_comment (comment : Option Text) :
    keysOfWords (comment.map quote).toList = ([], (comment.map quote).toList) := by
  cases comment with
  | none => rfl
  | some text =>
    rw [Option.map_some, Option.toList_some, keysOfWords, quote_eq_escape,
      AttributeKey.listOfWord?_quote]

theorem commentOfWords_comment {comment : Option Text}
    (h : ∀ text ∈ comment, ¬quoteEntity <:+: text) :
    commentOfWords (comment.map quote).toList = (comment, []) := by
  cases comment with
  | none => rfl
  | some text =>
    have hhead : (quote text).head? = some '"' := rfl
    rw [Option.map_some, Option.toList_some, commentOfWords, if_pos hhead, unquote_quote (h text rfl)]

/-- An attribute is read off its words. -/
theorem ofWords?_written (h : a.IsWritable) : ofWords? a.written = some [a] := by
  have hkeys : keysOfWords ((if a.keys.isEmpty then [] else [join [','] (a.keys.map (·.text))]) ++
      (a.comment.map quote).toList) = (a.keys, (a.comment.map quote).toList) := by
    split
    · next hnil => rw [List.nil_append, keysOfWords_comment, List.isEmpty_iff.1 hnil]
    · next hne =>
      rw [List.singleton_append, keysOfWords,
        AttributeKey.listOfWord?_join (by simpa using hne), keysOfWords_comment]
      dsimp only
      rw [List.append_nil]
  have hnames : (isWord a.type && isWord a.name) = true := by rw [h.type.isWord, h.name.isWord]; rfl
  rw [written, ofWords?, if_pos hnames, hkeys]
  dsimp only
  rw [commentOfWords_comment h.comment, ofWords?]
  rfl

/-! ## Lines -/

theorem isTrimmed_render (h : a.IsWritable) : IsTrimmed a.render := by
  have hplain : ∀ word : Text, word ≠ [] → (∀ c ∈ word, isSpace c = false) →
      word ≠ [] ∧ IsTrimmed word := fun word hne hall =>
    ⟨hne, fun c hc => hall c (List.mem_of_mem_head? hc), fun c hc => hall c (List.mem_of_mem_getLast? hc)⟩
  rw [render_eq_join]
  refine isTrimmed_join (forall_mem_written ?_ ?_ (fun hne => ?_) fun text _ => ?_)
  · exact hplain _ h.type.isClosed.1 fun c hc => (h.type.plain c hc).1
  · exact hplain _ h.name.isClosed.1 fun c hc => (h.name.plain c hc).1
  · have hkeys := AttributeKey.join_text_plain hne
    exact hplain _ hkeys.1 fun c hc => (hkeys.2 c hc).2
  · exact ⟨List.cons_ne_nil _ _, isTrimmed_quote text⟩

/-- A brace in a written attribute is one in its comment. -/
theorem mem_render_iff {c : Char} (h : a.IsWritable) (hc : c ∈ ['\x7b', '\x7d']) :
    c ∈ a.render ↔ ∃ text ∈ a.comment, c ∈ text := by
  have hsigns : c ∉ signs ∧ c ≠ '"' ∧ c ∈ ['"', '\x7b', '\x7d'] := by
    rcases List.mem_pair.1 hc with rfl | rfl <;> decide
  constructor
  · intro hmem
    have hsub := render_subset a hmem
    simp only [List.mem_append, hsigns.1, false_or] at hsub
    -- Neither the type nor the name holds a brace.
    rcases hsub with htype | hname | hcomment
    · exact absurd hsigns.2.2 (h.type.plain c htype).2
    · exact absurd hsigns.2.2 (h.name.plain c hname).2
    · cases htext : a.comment with
      | none =>
        rw [htext] at hcomment
        cases hcomment
      | some text =>
        rw [htext] at hcomment
        exact ⟨text, rfl, hcomment⟩
  · rintro ⟨text, htext, hmem⟩
    have hcomment : a.comment = some text := htext
    have hfield : quote text ∈ a.written := by simp [written, hcomment]
    rw [render_eq_join]
    exact mem_join_of_mem hfield (mem_quote_of_mem hsigns.2.1 hmem)

/-- An attribute is read off its line if no brace stands in its comment, and otherwise nothing is. -/
theorem ofLine?_written (h : a.IsWritable) (hw : IsBlank w) : ofLine? (w ++ a.render) =
    if ∀ text ∈ a.comment, '\x7b' ∉ text ∧ '\x7d' ∉ text then some a else none := by
  have htrim : trim (w ++ a.render) = a.render := by
    rw [trim_of_isBlank_append hw, trim_eq_self (isTrimmed_render h)]
  have hsilent : (a.render.isEmpty || startsWith ['%', '%'] a.render) = false := by
    obtain ⟨rest, hrest⟩ : ∃ rest, a.render = a.type ++ rest := by simp [render]
    have hword := (of_isWord_append hw h.type.isWord rest).1
    rw [← hrest, htrim] at hword
    exact hword
  have hbrace : (a.render.contains '\x7b' || a.render.contains '\x7d') = true ↔
      ¬∀ text ∈ a.comment, '\x7b' ∉ text ∧ '\x7d' ∉ text := by
    rw [Bool.or_eq_true, List.contains_iff_mem, List.contains_iff_mem,
      mem_render_iff h List.mem_cons_self, mem_render_iff h (by decide)]
    simp only [← exists_or, ← and_or_left, not_forall, not_and_or, not_not, exists_prop]
  rw [ofLine?, htrim, wordsOutside_render h, ofWords?_written h]
  simp only [hsilent, Bool.false_or, hbrace, ite_not]

/-- A written attribute is read back off its line exactly if no brace stands in its comment. -/
theorem ofLine?_append_render_iff (h : a.IsWritable) (hw : IsBlank w) :
    ofLine? (w ++ a.render) = some a ↔ ∀ text ∈ a.comment, '\x7b' ∉ text ∧ '\x7d' ∉ text := by
  rw [ofLine?_written h hw]
  split
  · next hcomment => exact iff_of_true rfl hcomment
  · next hbrace => exact iff_of_false nofun hbrace

/-- Two keys, and a comment with quotes of its own. -/
theorem ofLine?_append_render_iff_keys :
    let a : Attribute := ⟨"_row[]".toList, "n,1".toList, [.primary, .foreign], some "a \"b\"".toList⟩
    a.IsWritable ∧ IsBlank ['\t'] ∧ (ofLine? (['\t'] ++ a.render) = some a ↔
      ∀ text ∈ a.comment, '\x7b' ∉ text ∧ '\x7d' ∉ text) := by
  intro a
  have ha : a.IsWritable :=
    ⟨isName_of_all (by decide +kernel) (by decide +kernel),
      isName_of_all (by decide +kernel) (by decide +kernel), by decide +kernel⟩
  have hw : IsBlank ['\t'] := by simp [IsBlank, show isSpace '\t' = true by decide]
  exact ⟨ha, hw, ofLine?_append_render_iff ha hw⟩

/-- A brace in the comment hides the attribute from the lines of a block, though not from the inline
form of its entity. -/
theorem not_ofLine?_append_render :
    let a : Attribute := ⟨"string".toList, "id".toList, [], some ['a', '\x7b', 'b']⟩
    a.IsWritable ∧ ofLine? ([] ++ a.render) = none ∧
      (EntityHeader.ofLine? ("A \x7b".toList ++ a.render ++ ['\x7d'])).map (·.form) =
        some (.inline [a]) := by
  intro a
  have ha : a.IsWritable :=
    ⟨isName_of_all (by decide +kernel) (by decide +kernel),
      isName_of_all (by decide +kernel) (by decide +kernel), by decide +kernel⟩
  exact ⟨ha, by decide +kernel, by decide +kernel⟩

end Attribute

end DiagramEditor.EntityRelation
