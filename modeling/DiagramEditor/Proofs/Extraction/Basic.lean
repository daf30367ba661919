import DiagramEditor.Extraction.Basic
import DiagramEditor.Proofs.Lists

/-!
# The first item for each key

An id that is drawn twice counts once, for the element that is drawn first (`firstOfEach`). What stays
is looked up like in the whole list (`mem_firstOfEach_iff`), everything stays where the keys are
distinct (`firstOfEach_eq_self`), and a kind of items that comes first under its keys loses nothing
to the other kinds (`filter_firstOfEach`).
-/

namespace DiagramEditor.Extraction

variable {α : Type} {key : α → Text} {items : List α} {p : α → Bool} {a : α}

/-- Items whose keys no item in front of them has all stay. -/
theorem filter_firstOfEach (h : items.Pairwise fun a b => p b = true → key a ≠ key b) :
    (firstOfEach key items).filter p = items.filter p := by
  induction items with
  | nil => rfl
  | cons a rest ih =>
    obtain ⟨hfirst, hrest⟩ := List.pairwise_cons.1 h
    -- The filter for the key of `a` takes away nothing that `p` keeps.
    have hkept : ((firstOfEach key rest).filter fun b => key b ≠ key a).filter p =
        (firstOfEach key rest).filter p := by
      rw [List.filter_filter]
      refine List.filter_congr fun b hb => ?_
      cases hp : p b with
      | false => rfl
      | true =>
        have hne := hfirst b ((firstOfEach_sublist key rest).subset hb) hp
        simpa using hne.symm
    rw [firstOfEach, List.filter_cons, List.filter_cons, hkept, ih hrest]

/-- Where no key comes twice, every item stays. -/
theorem firstOfEach_eq_self (h : (items.map key).Nodup) : firstOfEach key items = items := by
  have hkeep := filter_firstOfEach (p := fun _ => true)
    ((List.pairwise_map.1 h).imp fun hne _ => hne)
  rwa [List.filter_true, List.filter_true] at hkeep

/-- What stays is what is found under its own key. -/
theorem mem_firstOfEach_iff :
    a ∈ firstOfEach key items ↔ items.find? (fun b => key b = key a) = some a := by
  induction items with
  | nil => simp [firstOfEach]
  | cons c rest ih =>
    rw [firstOfEach, List.mem_cons, List.mem_filter, ih, decide_eq_true_eq]
    by_cases hkey : key c = key a
    · rw [List.find?_cons_of_pos (by simpa using hkey), Option.some_inj]
      exact ⟨fun h => h.elim Eq.symm fun h => absurd hkey.symm h.2, fun h => .inl h.symm⟩
    · rw [List.find?_cons_of_neg (by simpa using hkey)]
      exact ⟨fun h => h.elim (fun h => absurd (congrArg key h.symm) hkey) And.left,
        fun h => .inr ⟨h, fun h => hkey h.symm⟩⟩

/-- Of pairs with keys, those stay that are looked up by their keys. -/
theorem mem_firstOfEach_fst_iff {l : List (Text × α)} {q : Text × α} :
    q ∈ firstOfEach Prod.fst l ↔ l.lookup q.1 = some q.2 := by
  rw [mem_firstOfEach_iff, List.find?_eq_some_iff_append, List.lookup_eq_some_iff]
  constructor
  · rintro ⟨-, before, after, rfl, hbefore⟩
    refine ⟨before, after, rfl, fun b hb => bne_iff_ne.2 fun heq => ?_⟩
    have hne := hbefore b hb
    rw [heq, decide_eq_true rfl] at hne
    cases hne
  · rintro ⟨before, after, rfl, hbefore⟩
    refine ⟨decide_eq_true rfl, before, after, rfl, fun b hb => ?_⟩
    have hne := bne_iff_ne.1 (hbefore b hb)
    simpa using hne.symm

end DiagramEditor.Extraction
