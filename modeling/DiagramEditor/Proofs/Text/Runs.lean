import DiagramEditor.Proofs.Text.Replace
import Mathlib.Data.List.SplitBy

/-!
# Words written as others and back

A text is made of runs (`runs`): the longest stretches of word characters and dashes, and what stands between
them. They take turns (`exists_alternates`), and a list of runs that take turns is the one of its text
(`Alternates.runs_flatten`). To change the words of a text is to change its runs one by one
(`mapWords_eq`), and as long as a word becomes a word, the runs of the new text are the changed ones
(`runs_mapWords`): no word grows together with its neighbour, and none is cut.

So what `replaceWord` does to a line can be read off the line that comes out, field by field between the
double quotes (`IsReworded`), and it can be taken back where the new word was not in use.
-/

namespace DiagramEditor.Text

variable {s t r w old new line : Text} {rs fields : List Text} {f g : Text → Text} {b : Bool} {i : Nat}

/-! ## Runs -/

/-- The longest stretches of characters that all belong to words, or that all belong to none. -/
def runs (s : Text) : List Text :=
  s.splitBy fun c d => isWordPart c == isWordPart d

/-- A stretch of characters of one kind: all of them belong to words, or none does. -/
structure IsRun (inWord : Bool) (r : Text) : Prop where
  ne_nil : r ≠ []
  kind : ∀ c ∈ r, isWordPart c = inWord

/-- Stretches of the two kinds in turn, the first of the kind `b`. -/
inductive Alternates : (b : Bool) → List Text → Prop where
  | nil (b : Bool) : Alternates b []
  | cons {b : Bool} {r : Text} {rs : List Text} (hr : IsRun b r) (hrs : Alternates (!b) rs) :
    Alternates b (r :: rs)

theorem IsRun.runs (h : IsRun b r) : runs r = [r] := by
  refine List.splitBy_of_isChain h.ne_nil (List.Pairwise.isChain ?_)
  refine List.pairwise_of_forall_mem_list fun c hc d hd => ?_
  rw [h.kind c hc, h.kind d hd, beq_self_eq_true]

/-- A stretch ends where the other kind begins. -/
theorem IsRun.runs_append (h : IsRun b r) (ht : ∀ c ∈ t.head?, isWordPart c = !b) :
    Text.runs (r ++ t) = r :: Text.runs t := by
  have hborder : ∀ c ∈ r.getLast?, ∀ d ∈ t.head?, (isWordPart c == isWordPart d) = false := by
    intro c hc d hd
    rw [h.kind c (List.mem_of_getLast? hc), ht d hd]
    cases b <;> rfl
  rw [Text.runs, List.splitBy_append hborder]
  exact congrArg (· ++ Text.runs t) h.runs

theorem Alternates.head?_flatten (h : Alternates b rs) :
    ∀ c ∈ rs.flatten.head?, isWordPart c = b := by
  cases h with
  | nil => rintro _ ⟨⟩
  | cons hr _ =>
    rw [List.flatten_cons, List.head?_append_of_ne_nil _ hr.ne_nil]
    exact fun c hc => hr.kind c (List.mem_of_head? hc)

/-- Stretches that take turns are the runs of the text that they make up. -/
theorem Alternates.runs_flatten (h : Alternates b rs) : runs rs.flatten = rs := by
  induction h with
  | nil => rfl
  | cons hr hrs ih => rw [List.flatten_cons, hr.runs_append hrs.head?_flatten, ih]

/-- The runs of a text take turns. -/
theorem exists_alternates (s : Text) : ∃ b, Alternates b (runs s) := by
  suffices ∃ b rs, Alternates b rs ∧ rs.flatten = s by
    obtain ⟨b, rs, hrs, rfl⟩ := this
    exact ⟨b, hrs.runs_flatten.symm ▸ hrs⟩
  induction s with
  | nil => exact ⟨true, [], .nil true, rfl⟩
  | cons c s ih =>
    obtain ⟨b, rs, hrs, rfl⟩ := ih
    have hone : ∀ b, isWordPart c = b → IsRun b [c] := fun b hc =>
      ⟨List.cons_ne_nil c [], List.forall_mem_singleton.2 hc⟩
    by_cases hc : isWordPart c = b
    · -- The character belongs to the first run.
      cases hrs with
      | nil => exact ⟨b, [[c]], .cons (hone b hc) (.nil _), rfl⟩
      | @cons _ r rs hr hrs =>
        exact ⟨b, (c :: r) :: rs,
          .cons ⟨List.cons_ne_nil c r, List.forall_mem_cons.2 ⟨hc, hr.kind⟩⟩ hrs, rfl⟩
    · refine ⟨!b, [c] :: rs, .cons (hone _ (Bool.eq_not.2 hc)) ?_, rfl⟩
      rwa [Bool.not_not]

theorem flatten_runs (s : Text) : (runs s).flatten = s :=
  List.flatten_splitBy _ s

theorem Alternates.map (hf : ∀ b r, IsRun b r → IsRun b (f r)) (h : Alternates b rs) :
    Alternates b (rs.map f) := by
  induction h with
  | nil b => exact .nil b
  | cons hr _ ih => exact .cons (hf _ _ hr) ih

/-! ## Changing words -/

theorem mapWordsFrom_append (hr : ∀ c ∈ r, isWordPart c = true) (f : Text → Text) (word t : Text) :
    mapWordsFrom f word (r ++ t) = mapWordsFrom f (word ++ r) t := by
  induction r generalizing word with
  | nil => rw [List.append_nil, List.nil_append]
  | cons c r ih =>
    obtain ⟨hc, hr⟩ := List.forall_mem_cons.1 hr
    rw [List.cons_append, mapWordsFrom, if_pos hc, ih hr, List.append_assoc, List.singleton_append]

/-- In front of a character of no word the word that has been read is whole. -/
theorem mapWordsFrom_of_head (hw : w ≠ []) (ht : ∀ c ∈ t.head?, isWordPart c = false) :
    mapWordsFrom f w t = f w ++ mapWords f t := by
  have hempty : w.isEmpty = false := List.isEmpty_eq_false_iff.2 hw
  cases t with
  | nil => simp [mapWords, mapWordsFrom, hempty]
  | cons c t => simp [mapWords, mapWordsFrom, hempty, ht c rfl]

/-- What belongs to no word stays. -/
theorem mapWords_append (hr : ∀ c ∈ r, isWordPart c = false) (f : Text → Text) (t : Text) :
    mapWords f (r ++ t) = r ++ mapWords f t := by
  induction r with
  | nil => rfl
  | cons c r ih =>
    obtain ⟨hc, hr⟩ := List.forall_mem_cons.1 hr
    rw [List.cons_append, mapWords, mapWordsFrom, hc]
    exact congrArg (c :: ·) (ih hr)

theorem Alternates.mapWords_flatten (hf : ∀ r, IsRun false r → f r = r) (h : Alternates b rs) :
    mapWords f rs.flatten = (rs.map f).flatten := by
  induction h with
  | nil => rfl
  | @cons b r rs hr hrs ih =>
    rw [List.flatten_cons, List.map_cons, List.flatten_cons, ← ih]
    cases b with
    | false => rw [mapWords_append hr.kind, hf r hr]
    | true =>
      rw [mapWords, mapWordsFrom_append hr.kind, List.nil_append,
        mapWordsFrom_of_head hr.ne_nil hrs.head?_flatten]

/-- The words of a text are changed run by run. -/
theorem mapWords_eq (hf : ∀ r, IsRun false r → f r = r) (s : Text) :
    mapWords f s = ((runs s).map f).flatten := by
  obtain ⟨b, hb⟩ := exists_alternates s
  rw [← hb.mapWords_flatten hf, flatten_runs]

theorem renamed_self (old new : Text) : renamed old new old = new := if_pos rfl

theorem renamed_of_ne (h : w ≠ old) : renamed old new w = w := if_neg h

section Renamed

variable (hold : IsRun true old)

include hold

theorem renamed_of_isRun_false (hr : IsRun false r) : renamed old new r = r := by
  refine renamed_of_ne ?_
  rintro rfl
  obtain ⟨c, hc⟩ := List.exists_mem_of_ne_nil r hr.ne_nil
  exact absurd ((hold.kind c hc).symm.trans (hr.kind c hc)) Bool.noConfusion

theorem mem_mapWords {c : Char} (h : c ∈ mapWords (renamed old new) s) : c ∈ s ∨ c ∈ new := by
  rw [mapWords_eq fun r => renamed_of_isRun_false hold] at h
  obtain ⟨_, hmem, hc⟩ := List.mem_flatten.1 h
  obtain ⟨r, hr, rfl⟩ := List.mem_map.1 hmem
  rw [renamed] at hc
  split at hc
  · exact .inr hc
  · rw [← flatten_runs s]
    exact .inl (List.mem_flatten_of_mem hr hc)

variable (hnew : IsRun true new)

include hnew

/-- A run is written as one of its kind. -/
theorem isRun_renamed (b : Bool) (r : Text) (hr : IsRun b r) : IsRun b (renamed old new r) := by
  cases b with
  | false => rwa [renamed_of_isRun_false hold hr]
  | true =>
    rw [renamed]
    split
    exacts [hnew, hr]

/-- Words are neither merged nor cut. -/
theorem runs_mapWords (s : Text) :
    runs (mapWords (renamed old new) s) = (runs s).map (renamed old new) := by
  obtain ⟨b, hb⟩ := exists_alternates s
  rw [mapWords_eq fun r => renamed_of_isRun_false hold]
  exact (hb.map (isRun_renamed hold hnew)).runs_flatten

/-- What was written as a word that was not there can be written back. -/
theorem mapWords_mapWords (hs : new ∉ runs s) :
    mapWords (renamed new old) (mapWords (renamed old new) s) = s := by
  have hback : ∀ r ∈ runs s, (renamed new old ∘ renamed old new) r = r := by
    intro r hr
    have hne : r ≠ new := fun heq => hs (heq ▸ hr)
    rw [Function.comp_apply]
    by_cases h : r = old
    · rw [h, renamed_self, renamed_self]
    · rw [renamed_of_ne h, renamed_of_ne hne]
  rw [mapWords_eq fun r => renamed_of_isRun_false hnew, runs_mapWords hold hnew, List.map_map,
    List.map_congr_left hback, List.map_id', flatten_runs]

end Renamed

/-! ## Fields between double quotes -/

/-- The changed fields are those at even positions. -/
theorem getElem?_mapAlternate (f : Text → Text) (fields : List Text) (i : Nat) :
    (mapAlternate f fields)[i]? = if i % 2 = 0 then (fields[i]?).map f else fields[i]? := by
  fun_induction mapAlternate f fields generalizing i with
  | case1 => simp
  | case2 s => cases i <;> simp
  | case3 s t rest ih =>
    match i with
    | 0 => rfl
    | 1 => rfl
    | i + 2 =>
      rw [List.getElem?_cons_succ, List.getElem?_cons_succ, ih, Nat.add_mod_right]
      rfl

theorem length_mapAlternate (f : Text → Text) (fields : List Text) :
    (mapAlternate f fields).length = fields.length := by
  fun_induction mapAlternate f fields with
  | case1 => rfl
  | case2 => rfl
  | case3 s t rest ih => simp [ih]

/-- Changing every second field twice. -/
theorem mapAlternate_mapAlternate
    (h : ∀ i s, i % 2 = 0 → fields[i]? = some s → g (f s) = s) :
    mapAlternate g (mapAlternate f fields) = fields := by
  refine List.ext_getElem? fun i => ?_
  rw [getElem?_mapAlternate, getElem?_mapAlternate]
  split
  · next hi =>
    cases hs : fields[i]? with
    | none => rfl
    | some s => exact congrArg some (h i s hi hs)
  · rfl

/-- The fields of the new line are the changed fields of the old one. -/
theorem splitOn_replaceWord (hold : IsRun true old) (hnew : IsRun true new) (line : Text) :
    splitOn '"' (replaceWord old new line) =
      mapAlternate (mapWords (renamed old new)) (splitOn '"' line) := by
  refine splitOn_join ?_ fun field hfield => ?_
  · rw [← List.length_pos_iff, length_mapAlternate, List.length_pos_iff]
    exact splitOn_ne_nil '"' line
  · obtain ⟨i, hi⟩ := List.getElem?_of_mem hfield
    rw [getElem?_mapAlternate] at hi
    split at hi
    · obtain ⟨s, hs, rfl⟩ := Option.map_eq_some_iff.1 hi
      -- Neither the field nor the new word has a quote.
      refine fun hmem => (mem_mapWords hold hmem).elim
        (not_mem_of_mem_splitOn (List.mem_of_getElem? hs)) fun hmem => ?_
      exact absurd ((hnew.kind _ hmem).symm.trans isWordPart_quote) Bool.noConfusion
    · exact not_mem_of_mem_splitOn (List.mem_of_getElem? hi)

/-- The line `line'` is `line` with the word `old` written as `new` outside of double quotes. -/
structure IsReworded (old new line line' : Text) : Prop where
  length : (splitOn '"' line').length = (splitOn '"' line).length
  /-- The fields between an odd quote and the next one stay. -/
  quoted : ∀ i, i % 2 = 1 → (splitOn '"' line')[i]? = (splitOn '"' line)[i]?
  /-- In the other fields the runs stay, one by one, except those that are the old word. -/
  outside : ∀ i, i % 2 = 0 → ((splitOn '"' line')[i]?).map runs =
    ((splitOn '"' line)[i]?).map fun s => (runs s).map (renamed old new)

/-- A word written as another one changes this word only, and is written back where the new word was not in
use outside of double quotes. -/
theorem replaceWord_isReworded (hold : IsRun true old) (hnew : IsRun true new) (line : Text) :
    IsReworded old new line (replaceWord old new line) ∧
      ((∀ i s, i % 2 = 0 → (splitOn '"' line)[i]? = some s → new ∉ runs s) →
        replaceWord new old (replaceWord old new line) = line) := by
  have hfields := splitOn_replaceWord hold hnew line
  refine ⟨⟨?_, fun i hi => ?_, fun i hi => ?_⟩, fun hunused => ?_⟩
  · rw [hfields, length_mapAlternate]
  · rw [hfields, getElem?_mapAlternate, if_neg (by omega)]
  · rw [hfields, getElem?_mapAlternate, if_pos hi, Option.map_map]
    exact congrArg (Option.map · _) (funext (runs_mapWords hold hnew))
  · calc replaceWord new old (replaceWord old new line)
        = join ['"'] (mapAlternate (mapWords (renamed new old))
            (splitOn '"' (replaceWord old new line))) := rfl
      _ = join ['"'] (splitOn '"' line) := by
        rw [hfields, mapAlternate_mapAlternate fun i s hi hs =>
          mapWords_mapWords hold hnew (hunused i s hi hs)]
      _ = line := join_splitOn '"' line

/-- A longer word takes the place of a shorter one, in a line whose last quote is not closed. -/
theorem replaceWord_isReworded_unclosed :
    let line := "A-B A \"A\" A\x7bA \"A".toList
    let new := "ROW-1".toList
    IsRun true ['A'] ∧ IsRun true new ∧
      (∀ i s, i % 2 = 0 → (splitOn '"' line)[i]? = some s → new ∉ runs s) ∧
      replaceWord ['A'] new line = "A-B ROW-1 \"A\" ROW-1\x7bROW-1 \"A".toList ∧
      IsReworded ['A'] new line (replaceWord ['A'] new line) ∧
      replaceWord new ['A'] (replaceWord ['A'] new line) = line := by
  have hold : IsRun true ['A'] := ⟨by decide, List.all_eq_true.1 (by decide +kernel)⟩
  have hnew : IsRun true "ROW-1".toList := ⟨by decide, List.all_eq_true.1 (by decide +kernel)⟩
  have hunused : ∀ s ∈ splitOn '"' "A-B A \"A\" A\x7bA \"A".toList, "ROW-1".toList ∉ runs s := by
    decide +kernel
  have hat : ∀ i s, i % 2 = 0 → (splitOn '"' "A-B A \"A\" A\x7bA \"A".toList)[i]? = some s →
      "ROW-1".toList ∉ runs s := fun _ s _ hs => hunused s (List.mem_of_getElem? hs)
  obtain ⟨hreworded, hback⟩ := replaceWord_isReworded hold hnew "A-B A \"A\" A\x7bA \"A".toList
  exact ⟨hold, hnew, hat, by decide +kernel, hreworded, hback hat⟩

end DiagramEditor.Text
