import DiagramEditor.Proofs.EntityRelation.Place
import DiagramEditor.Proofs.EntityRelation.Relationship
import DiagramEditor.Proofs.Text.Replace

/-!
# Lines and views with another name

A name is replaced in a line as a word, wherever it stands outside of quotes. If the line has the word
exactly where it names the entity, it says the same about the new name: a relationship has it at its
ends (`Relationship.ofLine?_replaceWord`) and a header in front (`EntityHeader.ofLine?_replaceWord`).
The reader then goes over the old lines and the new ones in step (`Reader.readAll_rename`), so the view
comes out with the new name in place of the old one and is the same in everything else.
-/

namespace DiagramEditor.EntityRelation

open Text Source Identifier

variable {old new name line text : Text} {s : Text} {c : Char} {inside : Option Text} {effect : Effect}

/-! ## Names -/

theorem isEntityName_renamed (hnew : Relationship.isEntityName new = true)
    (hname : Relationship.isEntityName name = true) :
    Relationship.isEntityName (renamed old new name) = true := by
  rw [renamed]
  split
  exacts [hnew, hname]

/-- A name that is made of word characters is a word. -/
theorem le_count_outerWords (hold : ∀ c ∈ old, isWordPart c = true) (hne : name ≠ []) :
    (if name = old then 1 else 0) ≤ (outerWords name).count old := by
  split
  · next h =>
    subst h
    rw [outerWords_of_forall hne hold, List.count_singleton_self]
  · exact Nat.zero_le _

/-- A text of another kind is never among the words. -/
theorem count_outerWords_eq_zero (hold : ¬∀ c ∈ old, isWordPart c = true) (s : Text) :
    (outerWords s).count old = 0 :=
  List.count_eq_zero.2 fun hmem => hold (forall_of_mem_outerWordsFrom hmem)

/-! ## Relationships -/

namespace Relationship

variable {r : Relationship}

/-- The relationship with another name for an entity. -/
def rename (old new : Text) (r : Relationship) : Relationship :=
  { r with entity1 := renamed old new r.entity1, entity2 := renamed old new r.entity2 }

/-- In front of the colon there are no quotes. -/
theorem quote_not_mem_left {left : Text} (hwords : words left = [r.entity1, r.sign, r.entity2])
    (h1 : isEntityName r.entity1 = true) (h2 : isEntityName r.entity2 = true) : '"' ∉ left := by
  intro hquote
  obtain ⟨w, hw, hmem⟩ := exists_mem_words hquote (by decide)
  rw [hwords, List.mem_cons, List.mem_cons, List.mem_singleton] at hw
  rcases hw with rfl | rfl | rfl
  · exact not_mem_of_isEntityName h1 (by decide) hmem
  · exact (quote_not_mem_sign r).1 hmem
  · exact not_mem_of_isEntityName h2 (by decide) hmem

/-- A relationship with the old name as a word at its ends and nowhere else says the same about the
new name. -/
theorem ofLine?_replaceWord (hnew : isEntityName new = true) (hread : ofLine? line = some r)
    (hcount : (outerWords line).count old = [r.entity1, r.entity2].count old) :
    ofLine? (replaceWord old new line) = some (r.rename old new) := by
  obtain ⟨left, label, hline, hcolon, hwords, h1, h2, hlabel⟩ := ofLine?_eq_some_iff.1 hread
  have hne := ne_nil_of_isEntityName hnew
  have hquote := quote_not_mem_left hwords h1 h2
  have hhead : ∀ c ∈ (':' :: label).head?, isWordPart c = false := by
    rintro _ ⟨⟩
    decide
  obtain ⟨hreplace, houter⟩ := words_replaceFrom old hne (isSpace_of_mem hnew) hquote
  rw [hwords] at hreplace houter
  -- The old name is counted in each part.
  have hsum : (outerWords r.entity1).count old + (outerWords r.sign).count old +
      (outerWords r.entity2).count old + (outerWords label).count old =
        (if r.entity1 = old then 1 else 0) + if r.entity2 = old then 1 else 0 := by
    have hsplit : outerWords (left ++ ':' :: label) = outerWords left ++ outerWords label := by
      rw [outerWords, outerWordsFrom_append hhead, quotedAfter_of_not_mem hquote,
        outerWordsFrom_cons (by decide) (by decide)]
      rfl
    rw [← outerWords_trim, hline, hsplit, houter] at hcount
    simp only [List.flatMap_cons, List.flatMap_nil, List.count_append, List.count_nil,
      List.count_cons, beq_iff_eq] at hcount
    generalize (if r.entity1 = old then 1 else 0) = n₁ at hcount ⊢
    generalize (if r.entity2 = old then 1 else 0) = n₂ at hcount ⊢
    omega
  have hparts : (outerWords r.entity1).count old = (if r.entity1 = old then 1 else 0) ∧
      (outerWords r.sign).count old = 0 ∧
      (outerWords r.entity2).count old = (if r.entity2 = old then 1 else 0) ∧
      (outerWords label).count old = 0 := by
    by_cases hold : ∀ c ∈ old, isWordPart c = true
    · have hle₁ := le_count_outerWords hold (ne_nil_of_isEntityName h1)
      have hle₂ := le_count_outerWords hold (ne_nil_of_isEntityName h2)
      generalize (if r.entity1 = old then 1 else 0) = n₁ at hsum hle₁ ⊢
      generalize (if r.entity2 = old then 1 else 0) = n₂ at hsum hle₂ ⊢
      omega
    · generalize (if r.entity1 = old then 1 else 0) = n₁ at hsum ⊢
      generalize (if r.entity2 = old then 1 else 0) = n₂ at hsum ⊢
      simp only [count_outerWords_eq_zero hold] at hsum ⊢
      exact ⟨by omega, trivial, by omega, trivial⟩
  obtain ⟨hentity1, hsign, hentity2, hlabels⟩ := hparts
  refine ofLine?_eq_some_iff.2 ⟨replaceFrom old new false left, label, ?_, ?_, ?_,
    isEntityName_renamed hnew h1, isEntityName_renamed hnew h2, hlabel⟩
  · rw [trim_replaceWord hne (isSpace_of_mem hnew), hline, replaceFrom_append hhead,
      quotedAfter_of_not_mem hquote, replaceFrom_cons (by decide) (by decide),
      replaceFrom_eq_self (List.count_eq_zero.1 hlabels)]
  · intro hmem
    rcases mem_replaceFrom hmem with hmem | hmem
    exacts [hcolon hmem, not_mem_of_isEntityName hnew (by decide) hmem]
  · rw [hreplace, List.map_cons, List.map_cons, List.map_singleton,
      replaceFrom_name (ne_nil_of_isEntityName h1) hentity1,
      replaceFrom_eq_self (List.count_eq_zero.1 hsign),
      replaceFrom_name (ne_nil_of_isEntityName h2) hentity2]
    rfl

end Relationship

/-! ## Headers -/

namespace EntityHeader

variable {h : EntityHeader}

/-- The header with another name for an entity. -/
def rename (old new : Text) (h : EntityHeader) : EntityHeader :=
  { h with name := renamed old new h.name }

/-- A header is read off its name, its title and its form. -/
theorem ofLine?_eq_some_iff : ofLine? line = some h ↔ h.nameStart = (indent line).length ∧
    ∃ tail rest, trim line = h.name ++ tail ∧ Relationship.isEntityName h.name = true ∧
      (∀ c ∈ tail.head?, isEntityChar c = false) ∧
      scanTitle? (trimStart tail) = some (h.title, rest) ∧ form? rest = some h.form := by
  constructor
  · intro hread
    refine ⟨?_, ofLine?_eq_some hread⟩
    obtain ⟨_, -, hread⟩ := Option.bind_eq_some_iff.1 hread
    obtain ⟨_, -, hread⟩ := Option.bind_eq_some_iff.1 hread
    obtain ⟨form, -, heq⟩ := Option.bind_eq_some_iff.1 hread
    cases heq
    rfl
  · rintro ⟨hstart, tail, rest, hline, hname, htail, htitle, hform⟩
    obtain ⟨hchars, hword⟩ := Bool.and_eq_true_iff.1 hname
    rw [List.all_eq_true] at hchars
    have htake : (h.name ++ tail).takeWhile isEntityChar = h.name := by
      rw [List.takeWhile_append_of_pos hchars]
      cases tail with
      | nil => exact List.append_nil _
      | cons d tail => rw [List.takeWhile_cons_of_neg (by simp [htail d rfl]), List.append_nil]
    have hdrop : (h.name ++ tail).dropWhile isEntityChar = tail := by
      rw [List.dropWhile_append_of_pos hchars]
      cases tail with
      | nil => rfl
      | cons d tail => rw [List.dropWhile_cons_of_neg (by simp [htail d rfl])]
    obtain ⟨name, start, title, form⟩ := h
    simp only at *
    simp [ofLine?, hline, htake, hdrop, hword, htitle, hform, hstart]

/-- Behind the name of a header no word goes on. -/
theorem isWordPart_of_head? {tail rest : Text} {title : Option Text} {form : EntityForm}
    (htitle : scanTitle? (trimStart tail) = some (title, rest)) (hform : form? rest = some form) :
    ∀ c ∈ tail.head?, isWordPart c = false := by
  intro c hc
  cases hspace : isSpace c with
  | true => exact isWordPart_of_isSpace hspace
  | false =>
    have hself : trimStart tail = tail := trimStart_eq_self fun d hd => by
      rw [Option.mem_unique hd hc]
      exact hspace
    rw [hself] at htitle
    rcases head?_of_form? htitle hform c hc with rfl | rfl <;> decide

/-- A header with the old name as a word in front and nowhere else declares the new name. -/
theorem ofLine?_replaceWord (hnew : Relationship.isEntityName new = true)
    (hread : ofLine? line = some h)
    (hcount : (outerWords line).count old = [h.name].count old) :
    ofLine? (replaceWord old new line) = some (h.rename old new) := by
  obtain ⟨hstart, tail, rest, hline, hname, htail, htitle, hform⟩ := ofLine?_eq_some_iff.1 hread
  have hne := Relationship.ne_nil_of_isEntityName hnew
  have hnamene := Relationship.ne_nil_of_isEntityName hname
  have hquote : '"' ∉ h.name := Relationship.not_mem_of_isEntityName hname (by decide)
  have hboundary := isWordPart_of_head? htitle hform
  have hparts : (outerWords h.name).count old = (if h.name = old then 1 else 0) ∧
      (outerWords tail).count old = 0 := by
    have hsplit : outerWords (h.name ++ tail) = outerWords h.name ++ outerWords tail := by
      rw [outerWords, outerWordsFrom_append hboundary, quotedAfter_of_not_mem hquote]
      rfl
    rw [← outerWords_trim, hline, hsplit, List.count_append, List.count_singleton] at hcount
    simp only [beq_iff_eq] at hcount
    by_cases hold : ∀ c ∈ old, isWordPart c = true
    · have hle := le_count_outerWords hold hnamene
      generalize (if h.name = old then 1 else 0) = n at hcount hle ⊢
      omega
    · simp only [count_outerWords_eq_zero hold] at hcount ⊢
      exact ⟨by omega, trivial⟩
  have htrim : trim (replaceWord old new line) = renamed old new h.name ++ tail := by
    rw [trim_replaceWord hne (Relationship.isSpace_of_mem hnew), hline, replaceFrom_append hboundary,
      quotedAfter_of_not_mem hquote, replaceFrom_name hnamene hparts.1,
      replaceFrom_eq_self (List.count_eq_zero.1 hparts.2)]
  refine ofLine?_eq_some_iff.2 ⟨?_, tail, rest, htrim, isEntityName_renamed hnew hname, htail, htitle,
    hform⟩
  -- The blanks in front are the same.
  obtain ⟨w, v, hw, -, hold, hreplaced⟩ := exists_replaceWord_eq old new line
  have hindent : ∀ {m : Text}, m ≠ [] → IsTrimmed m → indent (w ++ (m ++ v)) = w := by
    intro m hm htrimmed
    rw [indent_of_isBlank_append hw, indent_eq_nil, List.append_nil]
    intro c hc
    rw [List.head?_append_of_ne_nil _ hm] at hc
    exact htrimmed.head c hc
  have hnil : trim line ≠ [] := by
    rw [hline]
    exact List.append_ne_nil_of_left_ne_nil hnamene tail
  have hlength : indent (replaceWord old new line) = indent line := by
    rw [hreplaced, hindent (mt (replaceFrom_eq_nil_iff hne).1 hnil)
      (isTrimmed_replaceFrom hne (Relationship.isSpace_of_mem hnew) (isTrimmed_trim line))]
    conv_rhs => rw [hold]
    exact (hindent hnil (isTrimmed_trim line)).symm
  rw [hlength]
  exact hstart

end EntityHeader

/-! ## Effects -/

namespace Effect

/-- The effect with another name for an entity. -/
def rename (old new : Text) : Effect → Effect
  | .skip => .skip
  | .close name => .close (renamed old new name)
  | .addAttribute name a => .addAttribute (renamed old new name) a
  | .relationship r => .relationship (r.rename old new)
  | .header h => .header (h.rename old new)

/-- The names that stand on the line itself. -/
def written : Effect → List Text
  | .relationship r => [r.entity1, r.entity2]
  | .header h => [h.name]
  | _ => []

/-- Wherever no block is open, a relationship is read as one. -/
theorem ofLine_none_eq_relationship {r : Relationship} (hread : Relationship.ofLine? text = some r) :
    ofLine none text = .relationship r := by
  obtain ⟨left, label, hline, -, hwords, h1, -⟩ := Relationship.ofLine?_eq_some_iff.1 hread
  have hblank : ¬IsBlank left := by
    intro hblank
    rw [← words_trimStart, trimStart_eq_nil_iff.2 hblank] at hwords
    cases hwords
  obtain ⟨w, field, rest, rfl, hw, -, -, -, hfield⟩ := exists_first_field hblank
  obtain ⟨rfl, -⟩ := List.cons.inj (hfield.symm.trans hwords)
  have hsilent := (of_isWord_append hw (Bool.and_eq_true_iff.1 h1).2 (rest ++ ':' :: label)).1
  have htrim : trim (w ++ (r.entity1 ++ (rest ++ ':' :: label))) = trim text := by
    rw [← trim_trim text, hline]
    simp
  rw [htrim] at hsilent
  rw [ofLine.eq_def, if_neg (by simp [hsilent])]
  dsimp only
  rw [Statement.ofLine, hread]

/-- Inside of a block the name of its entity matters to nothing. -/
theorem ofLine_some_renamed (old new name text : Text) :
    ofLine (some (renamed old new name)) text = (ofLine (some name) text).rename old new := by
  rw [ofLine.eq_def, ofLine.eq_def]
  split
  · rfl
  · dsimp only
    split
    · rfl
    · cases Attribute.ofLine? text <;> rfl

/-- A line without the old name says what it did. -/
theorem ofLine_map_renamed (hwritten : old ∉ (ofLine inside text).written) :
    ofLine (inside.map (renamed old new)) text = (ofLine inside text).rename old new := by
  cases inside with
  | some name => exact ofLine_some_renamed old new name text
  | none =>
    rw [Option.map_none]
    cases heffect : ofLine none text with
    | skip => rfl
    | close name => cases eq_some_of_close heffect
    | addAttribute name a => cases eq_some_of_addAttribute heffect
    | relationship r =>
      rw [heffect, written, List.mem_cons, List.mem_singleton, not_or] at hwritten
      rw [rename, Relationship.rename, renamed, if_neg (Ne.symm hwritten.1), renamed,
        if_neg (Ne.symm hwritten.2)]
    | header h =>
      rw [heffect, written, List.mem_singleton] at hwritten
      rw [rename, EntityHeader.rename, renamed, if_neg (Ne.symm hwritten)]

/-- The name can be replaced on the line: as a word outside of quotes it stands where the line names
the entity and nowhere else, and a line that says nothing goes on saying nothing. -/
def IsRenamable (old new : Text) (inside : Option Text) (text : Text) : Prop :=
  if ofLine inside text = .skip then ofLine inside (replaceWord old new text) = .skip
  else (outerWords text).count old = (ofLine inside text).written.count old

instance (old new : Text) (inside : Option Text) (text : Text) :
    Decidable (IsRenamable old new inside text) :=
  inferInstanceAs (Decidable (if ofLine inside text = .skip then
    ofLine inside (replaceWord old new text) = .skip
    else (outerWords text).count old = (ofLine inside text).written.count old))

/-- A line on which the name can be replaced says the same about the new name. -/
theorem ofLine_replaceWord (hnew : Relationship.isEntityName new = true)
    (h : IsRenamable old new inside text) :
    ofLine (inside.map (renamed old new)) (replaceWord old new text) =
      (ofLine inside text).rename old new := by
  have hself : (outerWords text).count old = 0 → replaceWord old new text = text := by
    intro hcount
    rw [replaceWord_eq]
    exact replaceFrom_eq_self (List.count_eq_zero.1 hcount)
  rw [IsRenamable] at h
  split at h
  · next hskip =>
    rw [hskip]
    cases inside with
    | none => exact h
    | some name =>
      rw [Option.map_some, ofLine_some_renamed, h]
  · next hskip =>
    cases heffect : ofLine inside text with
    | skip => exact absurd heffect hskip
    | close name =>
      rw [heffect] at h
      rw [hself h, ofLine_map_renamed (by rw [heffect]; exact List.not_mem_nil), heffect]
    | addAttribute name a =>
      rw [heffect] at h
      rw [hself h, ofLine_map_renamed (by rw [heffect]; exact List.not_mem_nil), heffect]
    | relationship r =>
      rw [heffect] at h
      rw [eq_none_of_relationship heffect]
      exact ofLine_none_eq_relationship
        (Relationship.ofLine?_replaceWord hnew (ofLine?_of_relationship heffect) h)
    | header header =>
      rw [heffect] at h
      rw [eq_none_of_header heffect]
      exact ofLine_none_eq_header_iff.2
        (EntityHeader.ofLine?_replaceWord hnew (ofLine?_of_header heffect) h)

end Effect

/-! ## Views -/

/-- The record under the new name, if it is the one of the old name. -/
def EntityRecord.rename (old new : Text) (e : EntityRecord) : EntityRecord :=
  { e with name := renamed old new e.name }

/-- The record with another name for an entity. -/
def RelationshipRecord.rename (old new : Text) (r : RelationshipRecord) : RelationshipRecord :=
  { r with relationship := r.relationship.rename old new }

/-- The view with another name for an entity. -/
def View.rename (old new : Text) (v : View) : View :=
  { v with
    entities := v.entities.map (·.rename old new)
    relationships := v.relationships.map (·.rename old new) }

/-- The reader with another name for an entity. -/
def Reader.rename (old new : Text) (r : Reader) : Reader :=
  ⟨r.view.rename old new, r.openEntity.map (renamed old new)⟩

theorem renamed_inj {other : Text} (hname : name ≠ new) (hother : other ≠ new) :
    renamed old new name = renamed old new other ↔ name = other := by
  rw [renamed, renamed]
  split
  · next hold =>
    split
    · next hold' => simp [hold, hold']
    · next hold' =>
      refine ⟨fun h => absurd h.symm hother, fun h => absurd (h.symm.trans hold) hold'⟩
  · next hold =>
    split
    · next hold' => exact ⟨fun h => absurd h hname, fun h => absurd (h.trans hold') hold⟩
    · rfl

namespace View

variable {v : View} {f : EntityRecord → EntityRecord}

/-- A change of an entity and a change of a name can be made in any order. -/
theorem alter_rename (old : Text) (hv : new ∉ v.names) (hname : name ≠ new)
    (hf : ∀ e, f (e.rename old new) = (f e).rename old new) :
    (v.rename old new).alter (renamed old new name) f = (v.alter name f).rename old new := by
  have hentities : ∀ es : List EntityRecord, new ∉ es.map (·.name) →
      alterEntity (renamed old new name) f (es.map (·.rename old new)) =
        (alterEntity name f es).map (·.rename old new) := by
    intro es hes
    induction es with
    | nil => exact congrArg (fun e => [e]) (hf { name })
    | cons e es ih =>
      rw [List.map_cons, List.mem_cons, not_or] at hes
      have hiff : (e.rename old new).name = renamed old new name ↔ e.name = name :=
        renamed_inj (Ne.symm hes.1) hname
      rw [List.map_cons, alterEntity, alterEntity]
      simp only [hiff]
      split
      · rw [hf, List.map_cons]
      · rw [ih hes.2, List.map_cons]
  rw [alter, alter, rename, rename]
  simp only [hentities v.entities hv]

end View

/-- The same effect under both names. -/
theorem Reader.act_rename {r : Reader} (hview : new ∉ r.view.names) (heffect : new ∉ effect.names)
    (i : Nat) : (r.rename old new).act i (effect.rename old new) = (r.act i effect).rename old new := by
  cases effect with
  | skip => rfl
  | close name =>
    have hne : name ≠ new := fun h => heffect (List.mem_singleton.2 h.symm)
    exact congrArg (Reader.mk · none) (View.alter_rename old hview hne fun _ => rfl)
  | addAttribute name a =>
    have hne : name ≠ new := fun h => heffect (List.mem_singleton.2 h.symm)
    exact congrArg (Reader.mk · _) (View.alter_rename old hview hne fun _ => rfl)
  | relationship rel =>
    rw [Effect.names, List.mem_cons, List.mem_singleton, not_or] at heffect
    have hfirst := View.alter_rename (f := id) old hview (Ne.symm heffect.1) fun _ => rfl
    have hnames : new ∉ (r.view.alter rel.entity1 id).names := by
      rw [View.names_alter (f := id) fun _ => rfl, addName]
      split
      · exact hview
      · rw [List.mem_append, List.mem_singleton, not_or]
        exact ⟨hview, heffect.1⟩
    have hsecond := View.alter_rename (f := id) old hnames (Ne.symm heffect.2) fun _ => rfl
    rw [← hfirst] at hsecond
    rw [Effect.rename, act, act, stepOutside, stepOutside]
    simp only [Relationship.rename, Reader.rename, hsecond]
    simp [View.rename, RelationshipRecord.rename, Relationship.rename]
  | header h =>
    have hne : h.name ≠ new := fun heq => heffect (List.mem_singleton.2 heq.symm)
    have hdeclare : ∀ e : EntityRecord,
        (e.rename old new).declare i (h.rename old new) = (e.declare i h).rename old new := by
      intro e
      rw [EntityRecord.declare, EntityRecord.declare]
      cases hform : h.form <;> simp [EntityHeader.rename, EntityRecord.rename, hform]
    have hview := View.alter_rename (f := (·.declare i h)) old hview hne hdeclare
    rw [Effect.rename, act, act, stepOutside, stepOutside]
    refine congrArg₂ Reader.mk hview ?_
    rw [EntityHeader.rename]
    split <;> rfl

/-- Reading the new lines gives what the old ones give, under the new name. -/
theorem Reader.readAll_rename {r : Reader} {f : Nat → Text → Text} {lines : List (Nat × Text)}
    (hview : new ∉ r.view.names)
    (h : ∀ q ∈ r.places lines, new ∉ (Effect.ofLine q.2.2 q.2.1).names ∧
      Effect.ofLine (q.2.2.map (renamed old new)) (f q.1 q.2.1) =
        (Effect.ofLine q.2.2 q.2.1).rename old new) :
    (r.rename old new).readAll (lines.map fun p => (p.1, f p.1 p.2)) =
      (r.readAll lines).rename old new := by
  induction lines generalizing r with
  | nil => rfl
  | cons p lines ih =>
    obtain ⟨⟨hnames, hline⟩, hlines⟩ := List.forall_mem_cons.1 h
    dsimp only at hnames hline
    have hstep : (r.rename old new).step p.1 (f p.1 p.2) = (r.step p.1 p.2).rename old new := by
      rw [step_eq, step_eq, ← act_rename hview hnames, ← hline]
      rfl
    have hstay : new ∉ (r.step p.1 p.2).view.names := by
      rw [step_eq, names_act]
      exact fun hmem => (mem_foldl_addName.1 hmem).elim hview hnames
    rw [List.map_cons, readAll_cons, readAll_cons, hstep]
    exact ih hstay hlines

theorem Reader.start_rename {s s' : Source} (h : s'.declarationOf? .er = s.declarationOf? .er) :
    Reader.start s' = (Reader.start s).rename old new := by
  rw [start, start, h]
  rfl

/-- Every name on a line is the name of an entity. -/
theorem View.mem_names_of_mem_places {s : Source} {q : Nat × Text × Option Text} (hq : q ∈ places s)
    (h : name ∈ (Effect.ofLine q.2.2 q.2.1).names) : name ∈ (View.ofSource s).names := by
  have heffects := (Reader.start s).effects_eq (s.body .er)
  rw [names_ofSource, mem_foldl_addName, List.mem_flatMap]
  refine .inr ⟨_, ?_, h⟩
  rw [bodyTexts, show effects none _ = _ from heffects]
  exact List.mem_map_of_mem hq

/-- Where the new lines say what the old ones say, under the new name, so do the views. -/
theorem View.ofSource_rename {s s' : Source} {f : Nat → Text → Text}
    (hbody : s'.body .er = (s.body .er).map fun p => (p.1, f p.1 p.2))
    (hdeclaration : s'.declarationOf? .er = s.declarationOf? .er)
    (hnew : new ∉ (View.ofSource s).names)
    (h : ∀ q ∈ places s, Effect.ofLine (q.2.2.map (renamed old new)) (f q.1 q.2.1) =
      (Effect.ofLine q.2.2 q.2.1).rename old new) :
    View.ofSource s' = (View.ofSource s).rename old new := by
  rw [ofSource_eq, ofSource_eq, hbody, Reader.start_rename hdeclaration, Reader.readAll_rename]
  · rfl
  · exact List.not_mem_nil
  · exact fun q hq => ⟨fun hmem => hnew (mem_names_of_mem_places hq hmem), h q hq⟩

/-! ## Blocks -/

/-- A sign at the front stays, and none comes up there. -/
theorem head?_replaceFrom_eq_some_iff {q : Bool} (hnew : Relationship.isEntityName new = true)
    (hentity : isEntityChar c = false) (hword : isWordPart c = false) :
    (replaceFrom old new q s).head? = some c ↔ s.head? = some c := by
  rcases head?_replaceFrom (Relationship.ne_nil_of_isEntityName hnew) old q s with h | ⟨h, d, hd, hpart⟩
  · rw [h]
  · rw [h, hd]
    constructor
    · intro hc
      exact absurd (List.mem_of_head? hc) (Relationship.not_mem_of_isEntityName hnew hentity)
    · intro hc
      rw [Option.some.inj hc, hword] at hpart
      cases hpart

theorem getLast?_replaceFrom_eq_some_iff {q : Bool} (hnew : Relationship.isEntityName new = true)
    (hentity : isEntityChar c = false) (hword : isWordPart c = false) :
    (replaceFrom old new q s).getLast? = some c ↔ s.getLast? = some c := by
  rcases getLast?_replaceFrom (Relationship.ne_nil_of_isEntityName hnew) old q s with h | ⟨h, d, hd, hpart⟩
  · rw [h]
  · rw [h, hd]
    constructor
    · intro hc
      exact absurd (List.mem_of_getLast? hc) (Relationship.not_mem_of_isEntityName hnew hentity)
    · intro hc
      rw [Option.some.inj hc, hword] at hpart
      cases hpart

/-- A front of signs stays, and none comes up. -/
theorem startsWith_replaceFrom_iff (hnew : Relationship.isEntityName new = true) {front : Text}
    (hfront : ∀ c ∈ front, isEntityChar c = false ∧ isWordPart c = false ∧ c ≠ '"') :
    (∃ rest, replaceFrom old new false s = front ++ rest) ↔ ∃ rest, s = front ++ rest := by
  induction front generalizing s with
  | nil => simp
  | cons c front ih =>
    obtain ⟨⟨hentity, hword, hquote⟩, hfront⟩ := List.forall_mem_cons.1 hfront
    constructor
    · rintro ⟨rest, h⟩
      have hhead : s.head? = some c := by
        rw [← head?_replaceFrom_eq_some_iff (s := s) hnew hentity hword, h]
        rfl
      obtain ⟨s', rfl⟩ := List.head?_eq_some_iff.1 hhead
      rw [replaceFrom_cons hword hquote, List.cons_append, List.cons.injEq] at h
      obtain ⟨rest', rfl⟩ := (ih hfront).1 ⟨rest, h.2⟩
      exact ⟨rest', rfl⟩
    · rintro ⟨rest, rfl⟩
      obtain ⟨rest', h⟩ := (ih (s := front ++ rest) hfront).2 ⟨rest, rfl⟩
      exact ⟨rest', by rw [List.cons_append, replaceFrom_cons hword hquote, h, List.cons_append]⟩

theorem isBlockOpen_replaceFrom (hnew : Relationship.isEntityName new = true) (old s : Text) :
    isBlockOpen (replaceFrom old new false s) = isBlockOpen s := by
  have hsign : ∀ c ∈ ['%', '%'], isEntityChar c = false ∧ isWordPart c = false ∧ c ≠ '"' := by
    intro c hc
    simp only [List.mem_cons, List.not_mem_nil, or_false, or_self] at hc
    subst hc
    decide
  rw [Bool.eq_iff_iff, isBlockOpen_iff, isBlockOpen_iff, startsWith_replaceFrom_iff hnew hsign,
    getLast?_replaceFrom_eq_some_iff hnew (by decide) (by decide)]

theorem isBlockClose_replaceFrom (hnew : Relationship.isEntityName new = true) (old s : Text) :
    isBlockClose (replaceFrom old new false s) = isBlockClose s := by
  have hcons : ∀ t : Text, replaceFrom old new false ('\x7d' :: t) =
      '\x7d' :: replaceFrom old new false t := fun t => replaceFrom_cons (by decide) (by decide) t
  rw [isBlockClose, isBlockClose, decide_eq_decide]
  constructor
  · intro h
    have hhead : s.head? = some '\x7d' := by
      rw [← head?_replaceFrom_eq_some_iff (s := s) (q := false) hnew (by decide) (by decide), h]
      rfl
    obtain ⟨t, rfl⟩ := List.head?_eq_some_iff.1 hhead
    rw [hcons] at h
    rw [(replaceFrom_eq_nil_iff (Relationship.ne_nil_of_isEntityName hnew)).1 (List.cons.inj h).2]
  · rintro rfl
    exact hcons []

/-- Replacing a name opens and closes no blocks. -/
theorem blockStep_replaceWord (hnew : Relationship.isEntityName new = true) (old line : Text) :
    blockStep blockRules (replaceWord old new line) = blockStep blockRules line := by
  rw [blockStep, blockStep, trim_replaceWord (Relationship.ne_nil_of_isEntityName hnew)
    (Relationship.isSpace_of_mem hnew)]
  have hopens : blockRules.opens (replaceFrom old new false (trim line)) =
      blockRules.opens (trim line) := isBlockOpen_replaceFrom hnew old (trim line)
  have hcloses : blockRules.closes (replaceFrom old new false (trim line)) =
      blockRules.closes (trim line) := isBlockClose_replaceFrom hnew old (trim line)
  rw [hopens, hcloses]

end DiagramEditor.EntityRelation
