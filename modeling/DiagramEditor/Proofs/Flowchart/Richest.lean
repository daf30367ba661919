import DiagramEditor.Proofs.Flowchart.View
import Mathlib.Data.List.Induction

/-!
# The richest definition

Of several definitions a node has the richest one, and of those the first (`View.richest`). So no other
one is richer (`richness_le_of_richest`), and where no other one is as rich, neither the order of the
definitions nor the poorer ones matter (`richest_eq_of_unique`). The line of the definition is that of
the same mention (`exists_isRichest_gather`).
-/

namespace DiagramEditor.Flowchart.View

variable {ds ds' : List NodeDefinition} {d e : NodeDefinition}

/-- Poorer definitions are passed over. -/
theorem foldl_pick_of_le (h : ∀ d ∈ ds, d.richness ≤ e.richness) : ds.foldl pick (some e) = some e := by
  induction ds with
  | nil => rfl
  | cons d ds ih =>
    obtain ⟨hd, hds⟩ := List.forall_mem_cons.1 h
    rw [List.foldl_cons, pick, if_neg (Nat.not_lt.2 hd)]
    exact ih hds

/-- What is picked is as rich as all before. -/
theorem exists_foldl_pick_eq (e : NodeDefinition) (ds : List NodeDefinition) :
    ∃ e', ds.foldl pick (some e) = some e' ∧ e.richness ≤ e'.richness ∧
      ∀ d ∈ ds, d.richness ≤ e'.richness := by
  induction ds generalizing e with
  | nil => exact ⟨e, rfl, Nat.le_refl _, by simp⟩
  | cons d ds ih =>
    rw [List.foldl_cons, pick]
    split
    · next hlt =>
      obtain ⟨e', heq, hle, hall⟩ := ih d
      exact ⟨e', heq, Nat.le_trans (Nat.le_of_lt hlt) hle, List.forall_mem_cons.2 ⟨hle, hall⟩⟩
    · next hge =>
      obtain ⟨e', heq, hle, hall⟩ := ih e
      exact ⟨e', heq, hle,
        List.forall_mem_cons.2 ⟨Nat.le_trans (Nat.not_lt.1 hge) hle, hall⟩⟩

theorem foldl_pick_append_self (old : Option NodeDefinition) (ds : List NodeDefinition) :
    (ds ++ ds).foldl pick old = ds.foldl pick old := by
  cases ds with
  | nil => rfl
  | cons d ds =>
    obtain ⟨e, he, hor⟩ := pick_eq old d
    obtain ⟨e', heq, hle, hall⟩ := exists_foldl_pick_eq e ds
    have hd : d.richness ≤ e.richness := by
      rcases hor with rfl | rfl
      · exact Nat.le_refl _
      · rw [pick] at he
        split at he
        · next hlt =>
          obtain rfl := Option.some.inj he
          exact Nat.le_refl _
        · next hge => exact Nat.not_lt.1 hge
    have hfold : (d :: ds).foldl pick old = some e' := by rw [List.foldl_cons, he, heq]
    rw [List.foldl_append, hfold]
    exact foldl_pick_of_le (List.forall_mem_cons.2 ⟨Nat.le_trans hd hle, hall⟩)

/-- Definitions that come twice in a row count once. -/
theorem richest_append_self (front ds rest : List NodeDefinition) :
    richest (front ++ (ds ++ ds) ++ rest) = richest (front ++ ds ++ rest) := by
  rw [richest, richest, List.foldl_append, List.foldl_append, foldl_pick_append_self,
    List.foldl_append, List.foldl_append]

theorem richness_le_of_richest (h : richest ds = some e) (hd : d ∈ ds) : d.richness ≤ e.richness := by
  cases ds with
  | nil => cases hd
  | cons c ds =>
    obtain ⟨e', heq, hle, hall⟩ := exists_foldl_pick_eq c ds
    obtain rfl : e' = e := Option.some.inj (heq.symm.trans h)
    rcases List.mem_cons.1 hd with rfl | hd
    exacts [hle, hall d hd]

/-- Definitions may go and change places as long as the richest one is there, and no other one is as
rich. -/
theorem richest_eq_of_unique (hsub : ∀ d ∈ ds', d ∈ ds) (hkept : ∀ d ∈ richest ds, d ∈ ds')
    (hunique : ∀ d ∈ richest ds, ∀ e ∈ ds, e.richness = d.richness → e = d) :
    richest ds' = richest ds := by
  cases h : richest ds with
  | none =>
    have hnil : ds = [] := by
      by_contra hne
      have := isSome_richest.2 hne
      rw [h] at this
      cases this
    rw [hnil] at hsub
    rw [List.eq_nil_iff_forall_not_mem.2 fun d hd => List.not_mem_nil (hsub d hd)]
    rfl
  | some d =>
    have hd := hkept d h
    obtain ⟨e, he⟩ := Option.isSome_iff_exists.1 (isSome_richest.2 (List.ne_nil_of_mem hd))
    have hmem := hsub e (mem_of_richest he)
    have heq := Nat.le_antisymm (richness_le_of_richest h hmem) (richness_le_of_richest he hd)
    rw [he, hunique d h e hmem heq]

/-! ## The line of the richest definition -/

section Line

variable {α β : Type} {f : α → Option NodeDefinition} {entries : List α} {chosen : Option α} {a : α}

/-- Of the entries `chosen` is the first one with the richest definition, if any has a definition. -/
def IsRichest (f : α → Option NodeDefinition) (entries : List α) : Option α → Prop
  | none => ∀ a ∈ entries, f a = none
  | some a => ∃ before after d, entries = before ++ a :: after ∧ f a = some d ∧
      (∀ b ∈ before, ∀ e ∈ f b, e.richness < d.richness) ∧
        ∀ b ∈ after, ∀ e ∈ f b, e.richness ≤ d.richness

theorem IsRichest.mem (h : IsRichest f entries (some a)) : a ∈ entries := by
  obtain ⟨before, after, d, rfl, -⟩ := h
  simp

/-- An entry that is no richer than the chosen one changes nothing. -/
theorem IsRichest.concat (h : IsRichest f entries chosen)
    (ha : ∀ e ∈ f a, ∃ d ∈ chosen.bind f, e.richness ≤ d.richness) :
    IsRichest f (entries ++ [a]) chosen := by
  cases chosen with
  | none =>
    intro b hb
    rcases List.mem_append.1 hb with hb | hb
    · exact h b hb
    · rw [List.mem_singleton.1 hb, Option.eq_none_iff_forall_not_mem]
      intro e he
      obtain ⟨d, hd, -⟩ := ha e he
      cases hd
  | some c =>
    obtain ⟨before, after, d, rfl, hd, hbefore, hafter⟩ := h
    refine ⟨before, after ++ [a], d, by simp, hd, hbefore, fun b hb => ?_⟩
    rcases List.mem_append.1 hb with hb | hb
    · exact hafter b hb
    · intro e he
      rw [List.mem_singleton.1 hb] at he
      obtain ⟨d', hd', hle⟩ := ha e he
      obtain rfl : d = d' := Option.some.inj (hd.symm.trans hd')
      exact hle

/-- An entry that is richer than the chosen one is chosen. -/
theorem IsRichest.concat_self (h : IsRichest f entries chosen) (hd : f a = some d)
    (hlt : ∀ e ∈ chosen.bind f, e.richness < d.richness) :
    IsRichest f (entries ++ [a]) (some a) := by
  refine ⟨entries, [], d, rfl, hd, fun b hb e he => ?_, by simp⟩
  cases chosen with
  | none =>
    rw [h b hb] at he
    cases he
  | some c =>
    obtain ⟨before, after, d', rfl, hd', hbefore, hafter⟩ := h
    have hpoorer : d'.richness < d.richness := hlt d' hd'
    rcases List.mem_append.1 hb with hb | hb
    · exact Nat.lt_trans (hbefore b hb e he) hpoorer
    · rcases List.mem_cons.1 hb with rfl | hb
      · obtain rfl : d' = e := Option.some.inj (hd'.symm.trans he)
        exact hpoorer
      · exact Nat.lt_of_le_of_lt (hafter b hb e he) hpoorer

theorem IsRichest.map {g : α → β} {f' : β → Option NodeDefinition} (h : IsRichest f entries chosen)
    (hf : ∀ a ∈ entries, f' (g a) = f a) : IsRichest f' (entries.map g) (chosen.map g) := by
  cases chosen with
  | none =>
    intro b hb
    obtain ⟨a, ha, rfl⟩ := List.mem_map.1 hb
    rw [hf a ha, h a ha]
  | some c =>
    obtain ⟨before, after, d, rfl, hd, hbefore, hafter⟩ := h
    refine ⟨before.map g, after.map g, d, by simp, ?_, fun b hb => ?_, fun b hb => ?_⟩
    · rw [hf c (by simp), hd]
    · obtain ⟨a, ha, rfl⟩ := List.mem_map.1 hb
      rw [hf a (List.mem_append_left _ ha)]
      exact hbefore a ha
    · obtain ⟨a, ha, rfl⟩ := List.mem_map.1 hb
      rw [hf a (List.mem_append_right _ (List.mem_cons_of_mem c ha))]
      exact hafter a ha

/-- What a node takes from its mentions is the definition of one of them, with its line. -/
theorem exists_isRichest_gather (id : Text) (ms : List (Mention × NodeToken)) :
    ∃ chosen, IsRichest (fun p => p.2.definition) ms chosen ∧
      (gather id ms).definition = chosen.bind (·.2.definition) ∧
        (gather id ms).definitionLine = chosen.map (·.1.line) := by
  induction ms using List.reverseRecOn with
  | nil => exact ⟨none, by simp [IsRichest], rfl, rfl⟩
  | append_singleton ms p ih =>
    obtain ⟨chosen, hchosen, hdefinition, hline⟩ := ih
    rw [gather_append, NodeRecord.addMention, hdefinition, hline]
    cases hp : p.2.definition with
    | none => exact ⟨chosen, hchosen.concat (by simp [hp]), rfl, rfl⟩
    | some new =>
      cases hold : chosen.bind (·.2.definition) with
      | none =>
        have hself := hchosen.concat_self hp (by simp [hold])
        exact ⟨some p, hself, by simp [hp], rfl⟩
      | some old =>
        by_cases hlt : old.richness < new.richness
        · have hself := hchosen.concat_self hp (by simpa [hold] using hlt)
          exact ⟨some p, hself, by simp [hp, hlt], by simp [hlt]⟩
        · have hsame := hchosen.concat (a := p) (by simpa [hp, hold] using Nat.not_lt.1 hlt)
          exact ⟨chosen, hsame, by simp [hold, hlt], by simp [hlt]⟩

end Line

end DiagramEditor.Flowchart.View
