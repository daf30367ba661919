import DiagramEditor.Proofs.Flowchart.Property
import Mathlib.Tactic.Common

/-!
# Properties that are set and removed

A property that was read is spelled by some stretches, and these give it wherever they are read
(`Spells`, `exists_spells_of_mem_ofText`). If the parentheses of each property are closed at its end
(`IsClean`), another property may stand behind each of them. So properties that are readable one by one
are readable together, in whatever order (`ofText_toText_of_readable`), and setting and removing keys
leaves a list that is read back as it is (`ofText_toText_setAll`).
-/

namespace DiagramEditor.Flowchart.Properties

open Text

variable {raw s key value : Text} {properties more : Properties} {stretches others : List Text}
  {p : Text × Text}

/-! ## Stretches that spell properties -/

/-- No comma of the stretch stands at depth zero, and there it ends. -/
def IsWhole (s : Text) : Prop :=
  CommaFree 0 s ∧ depthAfter 0 s = 0

theorem areStretches_of_isWhole (h : ∀ s ∈ stretches, IsWhole s) : AreStretches stretches :=
  ⟨fun s hs => (h s hs).1, fun s hs => (h s (List.dropLast_subset _ hs)).2⟩

/-- Stretches that end at depth zero together do so one by one. -/
theorem AreStretches.isWhole (h : AreStretches stretches)
    (hdepth : depthAfter 0 (join [','] stretches) = 0) : ∀ s ∈ stretches, IsWhole s := by
  induction stretches with
  | nil => simp
  | cons s rest ih =>
    obtain ⟨hfree, hclosed, hrest⟩ := h.of_cons
    by_cases hnil : rest = []
    · subst hnil
      rw [join_singleton] at hdepth
      intro t ht
      rw [List.mem_singleton.1 ht]
      exact ⟨hfree, hdepth⟩
    · have hcomma : depthAfter 0 (s ++ [','] ++ join [','] rest) =
          depthAfter (depthStep (depthAfter 0 s) ',') (join [','] rest) := by
        simp [depthAfter]
      rw [join_cons _ _ hnil, hcomma, hclosed hnil] at hdepth
      exact List.forall_mem_cons.2 ⟨⟨hfree, hclosed hnil⟩, ih hrest hdepth⟩

/-- Joined, the stretches are the written form of the properties, and read behind any others they add
these. -/
structure Spells (stretches : List Text) (properties : Properties) : Prop where
  written : Written stretches properties
  read : ∀ front, stretches.foldl addStretch front = front ++ properties

theorem Spells.nil : Spells [] [] :=
  ⟨⟨rfl, rfl, by simp⟩, fun front => (List.append_nil front).symm⟩

theorem Spells.append (h : Spells stretches properties) (h' : Spells others more) :
    Spells (stretches ++ others) (properties ++ more) := by
  have hread : ∀ front, (stretches ++ others).foldl addStretch front =
      front ++ (properties ++ more) := fun front => by
    rw [List.foldl_append, h.read, h'.read, List.append_assoc]
  refine ⟨⟨?_, hread [], ?_⟩, hread⟩
  · by_cases hnil : properties = []
    · rw [hnil, h.written.nil_iff.2 hnil]
      exact h'.written.text
    · by_cases hnil' : more = []
      · rw [hnil', h'.written.nil_iff.2 hnil', List.append_nil, List.append_nil]
        exact h.written.text
      · rw [join_append (mt h.written.nil_iff.1 hnil) (mt h'.written.nil_iff.1 hnil'),
          ← h.written.text, ← h'.written.text, toText, toText, toText, List.map_append,
          join_append (by simpa using hnil) (by simpa using hnil')]
  · rw [List.append_eq_nil_iff, List.append_eq_nil_iff, h.written.nil_iff, h'.written.nil_iff]

/-- One stretch with a colon spells one property. -/
theorem spells_singleton (hkey : ':' ∉ key) (hne : key ≠ []) (htrim : trim key = key)
    (hvalue : trim value = value) : Spells [key ++ ':' :: value] [(key, value)] := by
  have hread : ∀ front, [key ++ ':' :: value].foldl addStretch front = front ++ [(key, value)] := by
    intro front
    rw [List.foldl_cons, List.foldl_nil, addStretch, cutChar?_append_cons hkey]
    simp [htrim, hvalue, hne]
  exact ⟨⟨rfl, hread [], by simp⟩, hread⟩

theorem extendLast_concat (properties : Properties) (text : Text) :
    extendLast text (properties ++ [(key, value)]) =
      properties ++ [(key, value ++ ',' :: text)] := by
  induction properties with
  | nil => rfl
  | cons p rest ih => rw [List.cons_append, extendLast_cons p (by simp), ih, List.cons_append]

/-- A stretch without a colon goes on with the value. -/
theorem Spells.extend (h : Spells stretches [(key, value)]) (hcolon : cutChar? ':' s = none) :
    Spells (stretches ++ [trim s]) [(key, value ++ ',' :: trim s)] := by
  have hne : stretches ≠ [] := mt h.written.nil_iff.1 (by simp)
  have hcolon' : cutChar? ':' (trim s) = none :=
    cutChar?_eq_none (not_mem_trim (cutChar?_eq_none_iff.1 hcolon))
  have hread : ∀ front, (stretches ++ [trim s]).foldl addStretch front =
      front ++ [(key, value ++ ',' :: trim s)] := by
    intro front
    rw [List.foldl_append, h.read, List.foldl_cons, List.foldl_nil, addStretch, hcolon']
    simp only [trim_trim, extendLast_concat]
  refine ⟨⟨?_, hread [], by simp⟩, hread⟩
  rw [join_append_singleton hne, ← h.written.text]
  simp [toText]

theorem mem_extendLast {text : Text} (hp : p ∈ extendLast text properties) :
    p ∈ properties ∨ ∃ q ∈ properties, p = (q.1, q.2 ++ ',' :: text) := by
  rcases List.eq_nil_or_concat properties with rfl | ⟨front, ⟨key, value⟩, rfl⟩
  · cases hp
  · rw [List.concat_eq_append, extendLast_concat, List.mem_append, List.mem_singleton] at hp
    rw [List.concat_eq_append]
    rcases hp with hp | rfl
    · exact .inl (List.mem_append_left _ hp)
    · exact .inr ⟨_, List.mem_append_right _ List.mem_cons_self, rfl⟩

/-! ## Properties that were read -/

/-- Where whole stretches spell each property, one more stretch is the only one that may not be
whole. -/
theorem exists_spells_addStretch
    (h : ∀ p ∈ properties, ∃ stretches, Spells stretches [p] ∧ ∀ t ∈ stretches, IsWhole t)
    (hp : p ∈ addStretch properties s) :
    (∃ stretches, Spells stretches [p] ∧ ∀ t ∈ stretches, IsWhole t) ∨
      ∃ stretches last, Spells (stretches ++ [last]) [p] ∧ (∀ t ∈ stretches, IsWhole t) ∧
        dense last = dense s := by
  cases hcut : cutChar? ':' s with
  | none =>
    rw [addStretch, hcut] at hp
    rcases mem_extendLast hp with hp | ⟨⟨key, value⟩, hq, rfl⟩
    · exact .inl (h p hp)
    · obtain ⟨stretches, hspells, hwhole⟩ := h _ hq
      exact .inr ⟨stretches, trim s, hspells.extend hcut, hwhole, dense_trim s⟩
  | some cut =>
    obtain ⟨key, value⟩ := cut
    obtain ⟨hs, hkey⟩ := cutChar?_eq_some hcut
    rw [addStretch, hcut] at hp
    dsimp only at hp
    split at hp
    · exact .inl (h p hp)
    · next hne =>
      rcases List.mem_append.1 hp with hp | hp
      · exact .inl (h p hp)
      · rw [List.mem_singleton.1 hp]
        refine .inr ⟨[], trim key ++ ':' :: trim value, ?_, by simp, ?_⟩
        · exact spells_singleton (not_mem_trim hkey) (by simpa using hne) (trim_trim key)
            (trim_trim value)
        · have hcons := dense_cons_of_not (c := ':') (by decide)
          rw [hs, dense_append, dense_append, hcons, hcons, dense_trim, dense_trim]

theorem exists_spells_foldl (hstretches : AreStretches stretches)
    (h : ∀ p ∈ properties, ∃ stretches, Spells stretches [p] ∧ ∀ t ∈ stretches, IsWhole t) :
    ∀ p ∈ stretches.foldl addStretch properties, ∃ stretches, Spells stretches [p] ∧
      AreStretches stretches := by
  induction stretches generalizing properties with
  | nil =>
    intro p hp
    obtain ⟨stretches, hspells, hwhole⟩ := h p hp
    exact ⟨stretches, hspells, areStretches_of_isWhole hwhole⟩
  | cons s rest ih =>
    obtain ⟨hfree, hdepth, hrest⟩ := hstretches.of_cons
    rw [List.foldl_cons]
    by_cases hnil : rest = []
    · -- The last stretch may leave parentheses open.
      subst hnil
      intro p hp
      rcases exists_spells_addStretch h hp with ⟨stretches, hspells, hwhole⟩ |
        ⟨stretches, last, hspells, hwhole, hdense⟩
      · exact ⟨stretches, hspells, areStretches_of_isWhole hwhole⟩
      · refine ⟨_, hspells, fun t ht => ?_, fun t ht => ?_⟩
        · rcases List.mem_append.1 ht with ht | ht
          · exact (hwhole t ht).1
          · rw [List.mem_singleton.1 ht]
            exact commaFree_of_dense_eq hdense.symm hfree
        · rw [List.dropLast_concat] at ht
          exact (hwhole t ht).2
    · refine ih hrest fun p hp => ?_
      rcases exists_spells_addStretch h hp with hwhole | ⟨stretches, last, hspells, hwhole, hdense⟩
      · exact hwhole
      · refine ⟨_, hspells, fun t ht => ?_⟩
        rcases List.mem_append.1 ht with ht | ht
        · exact hwhole t ht
        · rw [List.mem_singleton.1 ht]
          exact ⟨commaFree_of_dense_eq hdense.symm hfree,
            (depthAfter_of_dense_eq hdense).trans (hdepth hnil)⟩

/-- Every property that was read is spelled by stretches. -/
theorem exists_spells_of_mem_ofText (hp : p ∈ ofText raw) :
    ∃ stretches, Spells stretches [p] ∧ AreStretches stretches :=
  exists_spells_foldl (areStretches_splitCommas _) (by simp) p hp

/-! ## Readable properties -/

/-- The value does not end in a semicolon, and the parentheses of the property are closed at its end. -/
def IsClean (p : Text × Text) : Prop :=
  p.2.getLast? ≠ some ';' ∧ depthAfter 0 (p.1 ++ ':' :: p.2) = 0

instance (p : Text × Text) : Decidable (IsClean p) :=
  inferInstanceAs (Decidable (_ ∧ _))

/-- The property is clean, and read back where it is written alone. -/
def IsReadable (p : Text × Text) : Prop :=
  IsClean p ∧ ofText (toText [p]) = [p]

instance (p : Text × Text) : Decidable (IsReadable p) :=
  inferInstanceAs (Decidable (_ ∧ _))

theorem isReadable_of_mem_ofText (hp : p ∈ ofText raw) (hclean : IsClean p) : IsReadable p := by
  obtain ⟨stretches, hspells, hstretches⟩ := exists_spells_of_mem_ofText hp
  refine ⟨hclean, hspells.written.ofText_toText hstretches (fun q hq => ?_) fun q hq => ?_⟩
  · rw [List.mem_singleton.1 hq]
    exact isProperty_ofText raw p hp
  · rw [List.mem_singleton.1 hq]
    exact hclean.1

namespace IsReadable

theorem isProperty (h : IsReadable p) : IsProperty p :=
  isProperty_ofText (toText [p]) p (h.2.symm ▸ List.mem_cons_self)

theorem exists_spells (h : IsReadable p) :
    ∃ stretches, Spells stretches [p] ∧ ∀ s ∈ stretches, IsWhole s := by
  have hp : p ∈ ofText (toText [p]) := h.2.symm ▸ List.mem_cons_self
  obtain ⟨stretches, hspells, hstretches⟩ := exists_spells_of_mem_ofText hp
  refine ⟨stretches, hspells, hstretches.isWhole ?_⟩
  rw [← hspells.written.text, toText, List.map_singleton, join_singleton]
  exact h.1.2

end IsReadable

/-- Properties that are readable one by one are read back together. -/
theorem ofText_toText_of_readable (h : ∀ p ∈ properties, IsReadable p) :
    ofText (toText properties) = properties := by
  have hspells : ∃ stretches, Spells stretches properties ∧ ∀ s ∈ stretches, IsWhole s := by
    induction properties with
    | nil => exact ⟨[], .nil, by simp⟩
    | cons p rest ih =>
      obtain ⟨hp, hrest⟩ := List.forall_mem_cons.1 h
      obtain ⟨stretches, hspells, hwhole⟩ := hp.exists_spells
      obtain ⟨others, hothers, hwhole'⟩ := ih hrest
      refine ⟨stretches ++ others, hspells.append hothers, fun s hs => ?_⟩
      exact (List.mem_append.1 hs).elim (hwhole s) (hwhole' s)
  obtain ⟨stretches, hspells, hwhole⟩ := hspells
  exact hspells.written.ofText_toText (areStretches_of_isWhole hwhole)
    (fun p hp => (h p hp).isProperty) fun p hp => (h p hp).1.1

/-! ## Setting and removing -/

theorem alterFirst_append {f : Text → Option Text} {front : Properties}
    (h : ∀ p ∈ front, p.1 ≠ key) (rest : Properties) :
    alterFirst key f (front ++ rest) = front ++ alterFirst key f rest := by
  induction front with
  | nil => rfl
  | cons p front ih =>
    obtain ⟨hp, hfront⟩ := List.forall_mem_cons.1 h
    rw [List.cons_append, alterFirst, if_neg hp, ih hfront, List.cons_append]

/-- What becomes of the properties: the first one with the key has the new value or is gone, and where
there is none the new one stands at the end. All others stay in order. -/
theorem set_cases (hvalue : value ≠ []) (htrim : trim value = value) (key : Text)
    (properties : Properties) :
    (∃ front old back, properties = front ++ (key, old) :: back ∧ (∀ p ∈ front, p.1 ≠ key) ∧
      set key (some value) properties = front ++ (key, value) :: back ∧
      set key none properties = front ++ back) ∨
    ((∀ p ∈ properties, p.1 ≠ key) ∧
      set key (some value) properties = properties ++ [(key, value)] ∧
      set key none properties = properties) := by
  have hsome : ((some value).map trim).filter (fun v => !v.isEmpty) = some value := by
    simp [htrim, Option.filter, hvalue]
  by_cases hkey : key ∈ properties.map Prod.fst
  · obtain ⟨keys, keys', hmap, hfirst⟩ := List.eq_append_cons_of_mem hkey
    obtain ⟨front, rest, rfl, rfl, hrest⟩ := List.map_eq_append_iff.1 hmap
    obtain ⟨⟨k, old⟩, back, rfl, hk, -⟩ := List.map_eq_cons_iff.1 hrest
    have hfront : ∀ p ∈ front, p.1 ≠ key := fun p hp heq =>
      hfirst (heq ▸ List.mem_map_of_mem hp)
    rw [show k = key from hk]
    refine .inl ⟨front, old, back, rfl, hfront, ?_, ?_⟩
    · rw [set, hsome, if_pos (by simp), alterFirst_append hfront, alterFirst, if_pos rfl]
    · rw [set, if_pos (by simp), alterFirst_append hfront, alterFirst, if_pos rfl]
      rfl
  · have hnone : ∀ p ∈ properties, p.1 ≠ key := fun p hp heq =>
      hkey (heq ▸ List.mem_map_of_mem hp)
    have hany : ¬(properties.any fun p => p.1 = key) = true := by
      rw [List.any_eq_true]
      rintro ⟨p, hp, heq⟩
      exact hnone p hp (of_decide_eq_true heq)
    refine .inr ⟨hnone, ?_, ?_⟩
    · rw [set, hsome, if_neg hany]
    · rw [set, if_neg hany]
      rfl

theorem mem_alterFirst {f : Text → Option Text} (hp : p ∈ alterFirst key f properties) :
    p ∈ properties ∨ p.1 = key ∧ ∃ old, f old = some p.2 := by
  induction properties with
  | nil => cases hp
  | cons q rest ih =>
    rw [alterFirst] at hp
    split at hp
    · next hkey =>
      split at hp
      · next new hnew =>
        rcases List.mem_cons.1 hp with rfl | hp
        exacts [.inr ⟨hkey, _, hnew⟩, .inl (List.mem_cons_of_mem q hp)]
      · exact .inl (List.mem_cons_of_mem q hp)
    · rcases List.mem_cons.1 hp with rfl | hp
      · exact .inl List.mem_cons_self
      · exact (ih hp).imp_left (List.mem_cons_of_mem q)

/-- The properties after one key after the other was set to a value or removed. -/
def setAll (edits : List (Text × Option Text)) (properties : Properties) : Properties :=
  edits.foldl (fun properties edit => set edit.1 edit.2 properties) properties

/-- The edit removes a key, or sets it to a value with which it is readable. -/
def IsReadableEdit (edit : Text × Option Text) : Prop :=
  ∀ value ∈ edit.2, IsReadable (edit.1, value)

/-- One edit leaves readable properties. -/
theorem isReadable_set {edit : Text × Option Text} (hedit : IsReadableEdit edit)
    (h : ∀ p ∈ properties, IsReadable p) : ∀ p ∈ set edit.1 edit.2 properties, IsReadable p := by
  obtain ⟨key, value⟩ := edit
  have hnew : ∀ v, (value.map trim).filter (fun v => !v.isEmpty) = some v → IsReadable (key, v) := by
    intro v hv
    obtain ⟨hv, -⟩ := Option.filter_eq_some_iff.1 hv
    obtain ⟨old, rfl, rfl⟩ := Option.map_eq_some_iff.1 hv
    have hread := hedit old rfl
    rwa [trim_eq_self hread.isProperty.value_trimmed]
  intro p hp
  rw [set] at hp
  dsimp only at hp
  split at hp
  · rcases mem_alterFirst hp with hp | ⟨hkey, -, hvalue⟩
    · exact h p hp
    · have := hnew _ hvalue
      rwa [← hkey] at this
  · split at hp
    · next v hv =>
      rcases List.mem_append.1 hp with hp | hp
      · exact h p hp
      · rw [List.mem_singleton.1 hp]
        exact hnew v hv
    · exact h p hp

theorem isReadable_setAll {edits : List (Text × Option Text)} (hedits : ∀ e ∈ edits, IsReadableEdit e)
    (h : ∀ p ∈ properties, IsReadable p) : ∀ p ∈ setAll edits properties, IsReadable p := by
  induction edits generalizing properties with
  | nil => exact h
  | cons edit edits ih =>
    obtain ⟨hedit, hedits⟩ := List.forall_mem_cons.1 hedits
    exact ih hedits (isReadable_set hedit h)

/-- Clean properties that were read come back from their written form, also after whatever keys were set
to readable values or removed. Setting a key puts the value in the place of the first property with this
key, or at the end, removing it takes that property out, and all others stay as they are. -/
theorem ofText_toText_setAll (hclean : ∀ p ∈ ofText raw, IsClean p) :
    ofText (toText (ofText raw)) = ofText raw ∧
      (∀ edits : List (Text × Option Text), (∀ e ∈ edits, IsReadableEdit e) →
        ofText (toText (setAll edits (ofText raw))) = setAll edits (ofText raw)) ∧
      ∀ key value : Text, value ≠ [] → IsReadable (key, value) →
        (ofText (toText (set key (some value) (ofText raw))) = set key (some value) (ofText raw) ∧
          ofText (toText (set key none (ofText raw))) = set key none (ofText raw)) ∧
        ((∃ front old back, ofText raw = front ++ (key, old) :: back ∧ (∀ p ∈ front, p.1 ≠ key) ∧
            set key (some value) (ofText raw) = front ++ (key, value) :: back ∧
            set key none (ofText raw) = front ++ back) ∨
          ((∀ p ∈ ofText raw, p.1 ≠ key) ∧
            set key (some value) (ofText raw) = ofText raw ++ [(key, value)] ∧
            set key none (ofText raw) = ofText raw)) := by
  have hreadable : ∀ p ∈ ofText raw, IsReadable p := fun p hp =>
    isReadable_of_mem_ofText hp (hclean p hp)
  refine ⟨ofText_toText_of_readable hreadable, fun edits hedits =>
    ofText_toText_of_readable (isReadable_setAll hedits hreadable), fun key value hne hread => ?_⟩
  have hsome : IsReadableEdit (key, some value) := by
    rintro _ ⟨⟩
    exact hread
  have hnone : IsReadableEdit (key, none) := nofun
  refine ⟨⟨ofText_toText_of_readable (isReadable_set hsome hreadable),
    ofText_toText_of_readable (isReadable_set hnone hreadable)⟩, ?_⟩
  exact set_cases hne (trim_eq_self hread.isProperty.value_trimmed) key (ofText raw)

/-- The values hold commas and parentheses, one key stands twice, and one edit is about it. -/
theorem ofText_toText_setAll_nested :
    let raw : Text := " fill : rgb(1,(2),3) , a:5, 5 ,fill:x: y;z,:gone, (b,c) :;) ;;".toList
    let key : Text := "fill".toList
    let value : Text := "url(a,b),c".toList
    (∀ p ∈ ofText raw, IsClean p) ∧ value ≠ [] ∧ IsReadable (key, value) ∧
      ofText raw = [(key, "rgb(1,(2),3)".toList), ("a".toList, "5,5".toList),
        (key, "x: y;z".toList), ("(b,c)".toList, ";)".toList)] ∧
      ofText (toText (set key (some value) (ofText raw))) = set key (some value) (ofText raw) ∧
      set key (some value) (ofText raw) = (key, value) :: (ofText raw).tail ∧
      ofText (toText (setAll [(key, none), ("a".toList, some value)] (ofText raw))) =
        setAll [(key, none), ("a".toList, some value)] (ofText raw) := by
  intro raw key value
  have hclean : ∀ p ∈ ofText raw, IsClean p := by decide +kernel
  have hread : IsReadable (key, value) := by decide +kernel
  obtain ⟨-, hall, hset⟩ := ofText_toText_setAll hclean
  have hedits : ∀ e ∈ [(key, none), ("a".toList, some value)], IsReadableEdit e := by
    simp only [List.forall_mem_cons, List.not_mem_nil, false_implies, implies_true, and_true]
    exact ⟨nofun, fun v hv => by obtain rfl := Option.mem_some_iff.1 hv; decide +kernel⟩
  exact ⟨hclean, by decide +kernel, hread, by decide +kernel,
    (hset key value (by decide +kernel) hread).1.1, by decide +kernel, hall _ hedits⟩

end DiagramEditor.Flowchart.Properties
