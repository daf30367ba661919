import Mathlib.Data.List.Forall2
import Mathlib.Data.List.Nodup

/-!
# Lists of records

Views and schedulers keep their records in lists and change the one at a given position. What such a
change leaves alone is said here once for all of them (`map_modify`, `mem_modify`). Where a number
names an entry, the entry is exchanged and left out by its number (`map_update`, `filter_key`), and
where it sorts the records, counting the smaller numbers finds a record (`getElem?_countP_lt`).
-/

namespace DiagramEditor

variable {α β : Type} {f : α → α} {l : List α} {i : Nat} {a : α}

/-! ## One entry changed -/

theorem map_modify {g : α → β} {k : β → β} (h : ∀ a, g (f a) = k (g a)) (l : List α) (i : Nat) :
    (l.modify i f).map g = (l.map g).modify i k := by
  induction l generalizing i with
  | nil => simp
  | cons a l ih => cases i <;> simp [h, ih]

/-- What the change does not touch. -/
theorem map_modify_of_eq {g : α → β} (h : ∀ a, g (f a) = g a) (i : Nat) (l : List α) :
    (l.modify i f).map g = l.map g :=
  (map_modify h l i).trans (List.modify_id i (l.map g))

/-- What comes behind a place has no say in what is changed there. -/
theorem modify_append {i : Nat} (h : i < l.length) (more : List α) :
    (l ++ more).modify i f = l.modify i f ++ more := by
  induction l generalizing i with
  | nil => cases h
  | cons a l ih =>
    cases i with
    | zero => rfl
    | succ i =>
      rw [List.cons_append, List.modify_succ_cons, List.modify_succ_cons,
        ih (Nat.lt_of_succ_lt_succ h), List.cons_append]

theorem modify_append_cons (l : List α) (a : α) (more : List α) :
    (l ++ a :: more).modify l.length f = l ++ f a :: more := by
  induction l with
  | nil => rfl
  | cons b l ih => rw [List.cons_append, List.length_cons, List.modify_succ_cons, ih, List.cons_append]

theorem eraseIdx_append_cons (l : List α) (a : α) (more : List α) :
    (l ++ a :: more).eraseIdx l.length = l ++ more := by
  rw [List.eraseIdx_append_of_length_le (Nat.le_refl _), Nat.sub_self, List.eraseIdx_cons_zero]

theorem mem_modify (h : a ∈ l.modify i f) : a ∈ l ∨ ∃ b ∈ l, a = f b := by
  obtain ⟨j, hj⟩ := List.getElem?_of_mem h
  rw [List.getElem?_modify] at hj
  obtain ⟨b, hb, rfl⟩ := Option.map_eq_some_iff.1 hj
  split
  · exact .inr ⟨b, List.mem_of_getElem? hb, rfl⟩
  · exact .inl (List.mem_of_getElem? hb)

theorem forall_mem_modify {P : α → Prop} (i : Nat) (h : ∀ a ∈ l, P a) (hf : ∀ a, P a → P (f a)) :
    ∀ a ∈ l.modify i f, P a := by
  intro a ha
  rcases mem_modify ha with ha | ⟨b, hb, rfl⟩
  exacts [h a ha, hf b (h b hb)]

/-- Two lists that are alike, changed at the same position. -/
theorem forall₂_modify {R S : α → β → Prop} {g : β → β} {as : List α}
    {bs : List β} (h : List.Forall₂ R as bs) (hRS : ∀ a b, R a b → S a b)
    (hfg : ∀ a b, R a b → S (f a) (g b)) (i : Nat) :
    List.Forall₂ S (as.modify i f) (bs.modify i g) := by
  induction h generalizing i with
  | nil => cases i <;> exact .nil
  | cons hab hrest ih =>
    cases i with
    | zero => exact .cons (hfg _ _ hab) (hrest.imp hRS)
    | succ i => exact .cons (hRS _ _ hab) (ih i)

/-- A list and the same one with another entry at one position. -/
theorem forall₂_set {R : α → α → Prop} (hrefl : ∀ a, R a a) {b : α} (ha : l[i]? = some a)
    (hab : R a b) : List.Forall₂ R l (l.set i b) := by
  refine List.forall₂_iff_get.2 ⟨List.length_set.symm, fun j hj hj' => ?_⟩
  rw [List.get_eq_getElem, List.get_eq_getElem, List.getElem_set]
  split
  · next heq =>
    subst heq
    rw [List.getElem?_eq_getElem hj] at ha
    exact Option.some.inj ha ▸ hab
  · exact hrefl _

/-! ## Partners -/

section Partners

variable {R : α → β → Prop} {as : List α} {bs : List β}

theorem exists_of_forall₂ (h : List.Forall₂ R as bs) {b : β} (hb : b ∈ bs) : ∃ a ∈ as, R a b := by
  induction h with
  | nil => cases hb
  | @cons a c as bs hac _ ih =>
    rcases List.mem_cons.1 hb with rfl | hb
    · exact ⟨a, List.mem_cons_self, hac⟩
    · obtain ⟨d, hd, hdb⟩ := ih hb
      exact ⟨d, List.mem_cons_of_mem a hd, hdb⟩

theorem exists_of_forall₂_left (h : List.Forall₂ R as bs) (ha : a ∈ as) : ∃ b ∈ bs, R a b :=
  exists_of_forall₂ h.flip ha

theorem map_eq_map_of_forall₂ {γ : Type} {f : α → γ} {g : β → γ}
    (h : List.Forall₂ (fun a b => g b = f a) as bs) : bs.map g = as.map f := by
  induction h with
  | nil => rfl
  | cons hab _ ih => rw [List.map_cons, List.map_cons, hab, ih]

end Partners

/-! ## One entry more -/

theorem insertIdx_append (hi : i ≤ l.length) (more : List α) :
    (l ++ more).insertIdx i a = l.insertIdx i a ++ more := by
  induction l generalizing i with
  | nil =>
    obtain rfl := Nat.le_zero.1 hi
    rfl
  | cons b l ih =>
    cases i with
    | zero => rfl
    | succ i =>
      rw [List.cons_append, List.insertIdx_succ_cons, List.insertIdx_succ_cons,
        ih (Nat.le_of_succ_le_succ hi), List.cons_append]

/-- Where one more entry makes the same list, it is the same entry. -/
theorem eq_of_insertIdx [DecidableEq α] {b : α} {j : Nat} (hi : i ≤ l.length) (hj : j ≤ l.length)
    (h : l.insertIdx i a = l.insertIdx j b) : a = b := by
  have hperm : (a :: l).Perm (b :: l) :=
    (List.perm_insertIdx a l hi).symm.trans (h ▸ List.perm_insertIdx b l hj)
  have hcount := hperm.count_eq a
  rw [List.count_cons_self, List.count_cons] at hcount
  by_contra hne
  rw [if_neg (by simpa using Ne.symm hne)] at hcount
  omega

/-! ## Distinct keys -/

/-- Where the keys are distinct, an entry is found by its key. -/
theorem find?_of_nodup {key : α → β} [DecidableEq β] (h : (l.map key).Nodup) (ha : a ∈ l) :
    l.find? (fun b => key b = key a) = some a := by
  induction l with
  | nil => cases ha
  | cons c l ih =>
    rw [List.map_cons, List.nodup_cons] at h
    rcases List.mem_cons.1 ha with rfl | ha
    · exact List.find?_cons_of_pos (by simp)
    · have hne : key c ≠ key a := fun heq => h.1 (heq ▸ List.mem_map_of_mem ha)
      rw [List.find?_cons_of_neg (by simpa using hne), ih h.2 ha]

/-- Every entry is the first one that it matches if and only if it matches none in front of it. -/
theorem forall_find?_eq_some_iff {R : α → α → Bool} (hself : ∀ a, R a a = true) (h : l.Nodup) :
    (∀ a ∈ l, l.find? (R a) = some a) ↔ l.Pairwise fun b a => R a b = false := by
  induction l with
  | nil => simp
  | cons c l ih =>
    obtain ⟨hc, hl⟩ := List.nodup_cons.1 h
    -- Behind `c`, an entry that matches `c` would find it instead of itself.
    have hrest : ∀ a ∈ l, (c :: l).find? (R a) = some a ↔ R a c = false ∧ l.find? (R a) = some a := by
      intro a ha
      have hne : c ≠ a := fun heq => hc (heq ▸ ha)
      cases hmatch : R a c with
      | true => simp [hmatch, hne]
      | false => simp [hmatch]
    rw [List.pairwise_cons, ← ih hl, List.forall_mem_cons, List.find?_cons_of_pos (hself c)]
    constructor
    · rintro ⟨-, hall⟩
      exact ⟨fun a ha => ((hrest a ha).1 (hall a ha)).1, fun a ha => ((hrest a ha).1 (hall a ha)).2⟩
    · rintro ⟨hfirst, hall⟩
      exact ⟨rfl, fun a ha => (hrest a ha).2 ⟨hfirst a ha, hall a ha⟩⟩

/-- Where the keys are distinct, an entry is picked if its key is. -/
theorem mem_map_iff_of_nodup {key : α → β} {picked : List α} (h : (l.map key).Nodup)
    (hpicked : picked ⊆ l) (ha : a ∈ l) : key a ∈ picked.map key ↔ a ∈ picked := by
  refine ⟨fun hmem => ?_, List.mem_map_of_mem⟩
  obtain ⟨b, hb, heq⟩ := List.mem_map.1 hmem
  rwa [List.inj_on_of_nodup_map h ha (hpicked hb) heq.symm]

section Keys

variable {before after : List (Nat × α)}

/-- The entry with this key, exchanged. -/
theorem map_update (hnodup : ((before ++ (i, a) :: after).map Prod.fst).Nodup) (b : α) :
    (before ++ (i, a) :: after).map (fun p => (p.1, if i = p.1 then b else p.2)) =
      before ++ (i, b) :: after := by
  rw [List.map_append, List.map_cons, List.nodup_append, List.nodup_cons] at hnodup
  obtain ⟨-, ⟨hafter, -⟩, hbefore⟩ := hnodup
  have hself : ∀ l : List (Nat × α), i ∉ l.map Prod.fst →
      l.map (fun p => (p.1, if i = p.1 then b else p.2)) = l := by
    intro l hno
    refine List.map_congr_left (g := id) (fun p hp => ?_) |>.trans (List.map_id l)
    have hne : i ≠ p.1 := fun heq => hno (heq ▸ List.mem_map_of_mem hp)
    rw [if_neg hne]
    rfl
  rw [List.map_append, List.map_cons, hself after hafter, hself before fun hmem => ?_]
  · simp
  · exact hbefore i hmem i List.mem_cons_self rfl

/-- The entry with this key, left out. -/
theorem filter_key (hnodup : ((before ++ (i, a) :: after).map Prod.fst).Nodup) :
    (before ++ (i, a) :: after).filter (fun p => ! [i].contains p.1) = before ++ after := by
  rw [List.map_append, List.map_cons, List.nodup_append, List.nodup_cons] at hnodup
  obtain ⟨-, ⟨hafter, -⟩, hbefore⟩ := hnodup
  have hself : ∀ l : List (Nat × α), i ∉ l.map Prod.fst →
      l.filter (fun p => ! [i].contains p.1) = l := by
    intro l hno
    refine List.filter_eq_self.2 fun p hp => ?_
    have hne : p.1 ≠ i := fun heq => hno (heq ▸ List.mem_map_of_mem hp)
    simpa using hne
  rw [List.filter_append, List.filter_cons_of_neg (by simp), hself after hafter,
    hself before fun hmem => ?_]
  exact hbefore i hmem i List.mem_cons_self rfl

end Keys

/-! ## Lists with positions -/

/-- What was numbered comes back without the numbers. -/
theorem map_mapIdx {record : Nat → α → β} {g : β → α} (h : ∀ i a, g (record i a) = a) (l : List α) :
    (l.mapIdx record).map g = l := by
  refine List.ext_getElem? fun i => ?_
  rw [List.getElem?_map, List.getElem?_mapIdx, Option.map_map]
  exact (congrArg (Option.map · l[i]?) (funext (h i))).trans Option.map_id'

/-- Entries that are all changed keep their numbers. -/
theorem mapIdx_map {record : Nat → α → β} {g : β → β}
    (h : ∀ i a, record i (f a) = g (record i a)) (l : List α) :
    (l.map f).mapIdx record = (l.mapIdx record).map g := by
  refine List.ext_getElem? fun i => ?_
  rw [List.getElem?_mapIdx, List.getElem?_map, List.getElem?_map, List.getElem?_mapIdx]
  cases l[i]? with
  | none => rfl
  | some a => exact congrArg some (h i a)

/-- An entry that is changed keeps its number. -/
theorem mapIdx_modify {record : Nat → α → β} {g : β → β}
    (h : ∀ i a, record i (f a) = g (record i a)) (l : List α) (i : Nat) :
    (l.modify i f).mapIdx record = (l.mapIdx record).modify i g := by
  refine List.ext_getElem? fun j => ?_
  rw [List.getElem?_mapIdx, List.getElem?_modify, List.getElem?_modify, List.getElem?_mapIdx]
  cases l[j]? with
  | none => rfl
  | some a =>
    split
    · exact congrArg some (h j a)
    · rfl

/-! ## Classes -/

/-- The classes of a list, one behind the other, make up the list. -/
theorem perm_flatMap_filter [DecidableEq β] {c : α → β} {ks : List β} (hks : ks.Nodup)
    (h : ∀ a ∈ l, c a ∈ ks) : (ks.flatMap fun k => l.filter fun a => c a = k).Perm l := by
  induction ks generalizing l with
  | nil =>
    obtain rfl := List.eq_nil_iff_forall_not_mem.2 fun a ha => List.not_mem_nil (h a ha)
    exact .nil
  | cons k ks ih =>
    obtain ⟨hk, hks⟩ := List.nodup_cons.1 hks
    -- The other classes are those of what is left without the first one.
    have hrest : (ks.flatMap fun j => l.filter fun a => c a = j) =
        ks.flatMap fun j => (l.filter fun a => !decide (c a = k)).filter fun a => c a = j := by
      refine List.flatMap_congr fun j hj => ?_
      rw [List.filter_filter]
      refine List.filter_congr fun a _ => ?_
      by_cases heq : c a = j
      · have hne : c a ≠ k := fun heq' => hk (heq'.symm.trans heq ▸ hj)
        simp [heq, heq ▸ hne]
      · simp [heq]
    have hmem : ∀ a ∈ l.filter (fun a => !decide (c a = k)), c a ∈ ks := by
      intro a ha
      obtain ⟨ha, hne⟩ := List.mem_filter.1 ha
      exact (List.mem_cons.1 (h a ha)).resolve_left (by simpa using hne)
    rw [List.flatMap_cons, hrest]
    exact ((ih hks hmem).append_left _).trans (List.filter_append_perm _ l)

/-! ## Lists of results -/

/-- A list is mapped with success if every member is. -/
theorem mapM_eq_some {f : α → Option β} {out : List β} :
    l.mapM f = some out ↔ l.map f = out.map some := by
  induction l generalizing out with
  | nil => cases out <;> simp
  | cons a l ih =>
    rw [List.mapM_cons, List.map_cons]
    simp only [Option.bind_eq_bind, Option.bind_eq_some_iff, Option.pure_def, Option.some.injEq, ih]
    constructor
    · rintro ⟨b, hb, bs, hbs, rfl⟩
      rw [hb, hbs, List.map_cons]
    · intro h
      cases out with
      | nil => cases h
      | cons b bs =>
        obtain ⟨hb, hbs⟩ := List.cons.inj h
        exact ⟨b, hb, bs, hbs, rfl⟩

/-! ## Positions -/

/-- In a list that a number sorts, the entries with smaller numbers stand in front. -/
theorem getElem?_countP_lt {key : α → Nat} (hsorted : l.Pairwise fun a b => key a < key b)
    (ha : a ∈ l) : l[l.countP fun b => key b < key a]? = some a := by
  induction l with
  | nil => cases ha
  | cons b l ih =>
    obtain ⟨hlt, hsorted⟩ := List.pairwise_cons.1 hsorted
    rcases List.mem_cons.1 ha with rfl | ha
    · have hnone : l.countP (fun b => key b < key a) = 0 :=
        List.countP_eq_zero.2 fun c hc => by simpa using Nat.le_of_lt (hlt c hc)
      simp [hnone]
    · have hfirst : key b < key a := hlt a ha
      simpa [List.countP_cons, hfirst] using ih hsorted ha

end DiagramEditor
