import DiagramEditor.Edit.Basic
import DiagramEditor.Proofs.Source.Declaration
import DiagramEditor.Proofs.Source.Reload
import DiagramEditor.Proofs.Text.Trim
import Mathlib.Data.List.Basic

/-!
# What edits share

An edit that succeeds has succeeded in every step (`bind_eq_ok`, `mapM_eq_ok`), and what it leaves
behind is put together from what its steps ensure (`Ensures`). Lines that are inserted into the body
of a declared source leave everything else as it was (`Grown`): whatever is read off the other lines
is found again (`Grown.filterMap_eq`). And the steps keep a source flat that are given flat lines.
-/

namespace DiagramEditor.Edit

variable {α β ε : Type}

/-! ## Success -/

theorem bind_eq_ok {x : Except ε α} {f : α → Except ε β} {b : β} :
    (x >>= f) = .ok b ↔ ∃ a, x = .ok a ∧ f a = .ok b := by
  cases x with
  | error e => exact ⟨nofun, nofun⟩
  | ok a => exact ⟨fun h => ⟨a, rfl, h⟩, fun ⟨_, ha, h⟩ => Except.ok.inj ha ▸ h⟩

theorem map_eq_ok {x : Except ε α} {f : α → β} {b : β} :
    x.map f = .ok b ↔ ∃ a, x = .ok a ∧ f a = b := by
  cases x with
  | error e => exact ⟨nofun, nofun⟩
  | ok a => exact ⟨fun h => ⟨a, rfl, Except.ok.inj h⟩, fun ⟨_, ha, h⟩ => by cases ha; exact congrArg _ h⟩

/-- A list that is mapped with success is mapped member by member. -/
theorem mapM_eq_ok {f : α → Except ε β} {l : List α} {out : List β} (h : l.mapM f = .ok out) :
    List.Forall₂ (fun a b => f a = .ok b) l out := by
  induction l generalizing out with
  | nil =>
    rw [List.mapM_nil] at h
    cases h
    exact .nil
  | cons a l ih =>
    rw [List.mapM_cons] at h
    obtain ⟨b, hb, h⟩ := bind_eq_ok.1 h
    obtain ⟨bs, hbs, h⟩ := bind_eq_ok.1 h
    cases h
    exact .cons hb (ih hbs)

/-- A list is mapped with success where every member is. -/
theorem exists_mapM_eq_ok {f : α → Except ε β} {R : α → β → Prop} {l : List α}
    (h : ∀ a ∈ l, ∃ b, f a = .ok b ∧ R a b) : ∃ out, l.mapM f = .ok out ∧ List.Forall₂ R l out := by
  induction l with
  | nil => exact ⟨[], rfl, .nil⟩
  | cons a l ih =>
    obtain ⟨⟨b, hb, hR⟩, hrest⟩ := List.forall_mem_cons.1 h
    obtain ⟨out, hout, hall⟩ := ih hrest
    refine ⟨b :: out, ?_, .cons hR hall⟩
    rw [List.mapM_cons, hb, hout]
    rfl

/-- A check of a list that succeeds has succeeded for every member. -/
theorem forM_eq_ok {f : α → Except ε Unit} {l : List α} (h : l.forM f = .ok ()) :
    ∀ a ∈ l, f a = .ok () := by
  induction l with
  | nil => exact nofun
  | cons a l ih =>
    obtain ⟨_, ha, h⟩ := bind_eq_ok.1 (h : (f a >>= fun _ => l.forM f) = .ok ())
    exact List.forall_mem_cons.2 ⟨ha, ih h⟩

/-- What every step keeps, a run of steps keeps. -/
theorem foldlM_invariant {f : β → α → Except ε β} {P : β → Prop} {l : List α} {b b' : β}
    (hstep : ∀ a ∈ l, ∀ b b', P b → f b a = .ok b' → P b') (hb : P b)
    (h : l.foldlM f b = .ok b') : P b' := by
  induction l generalizing b with
  | nil =>
    cases h
    exact hb
  | cons a l ih =>
    rw [List.foldlM_cons] at h
    obtain ⟨c, hc, h⟩ := bind_eq_ok.1 h
    exact ih (fun x hx => hstep x (List.mem_cons_of_mem a hx))
      (hstep a List.mem_cons_self b c hb hc) h

/-- Where every step adds something and takes nothing back, a run of steps adds what its steps do. -/
theorem foldlM_adds {γ : Type} {f : β → α → Except ε β} {P : β → Prop} {R : β → γ → Prop}
    {new : α → γ → Prop} {l : List α} {b b' : β}
    (hstep : ∀ a ∈ l, ∀ b b', P b → f b a = .ok b' → P b' ∧ ∀ x, R b' x ↔ R b x ∨ new a x)
    (hb : P b) (h : l.foldlM f b = .ok b') : P b' ∧ ∀ x, R b' x ↔ R b x ∨ ∃ a ∈ l, new a x := by
  induction l generalizing b with
  | nil =>
    cases h
    exact ⟨hb, by simp⟩
  | cons a l ih =>
    obtain ⟨hfirst, hrest⟩ := List.forall_mem_cons.1 hstep
    rw [List.foldlM_cons] at h
    obtain ⟨c, hc, h⟩ := bind_eq_ok.1 h
    obtain ⟨hP, hadd⟩ := hfirst b c hb hc
    obtain ⟨hP', hadds⟩ := ih hrest hP h
    exact ⟨hP', fun x => by rw [hadds, hadd, List.exists_mem_cons_iff, or_assoc]⟩

/-! ## What success ensures -/

/-- The result has the property, if there is one. -/
def Ensures (x : Except ε α) (P : α → Prop) : Prop :=
  ∀ a, x = .ok a → P a

namespace Ensures

variable {x : Except ε α} {P Q : α → Prop} {R : β → Prop}

theorem ok {a : α} (h : P a) : Ensures (.ok a : Except ε α) P :=
  fun _ ha => Except.ok.inj ha ▸ h

theorem error (e : ε) : Ensures (.error e : Except ε α) P :=
  nofun

theorem mono (h : Ensures x P) (hPQ : ∀ a, P a → Q a) : Ensures x Q :=
  fun a ha => hPQ a (h a ha)

theorem bind {f : α → Except ε β} (hx : Ensures x P) (hf : ∀ a, P a → Ensures (f a) R) :
    Ensures (x >>= f) R := by
  intro b hb
  obtain ⟨a, ha, hb⟩ := bind_eq_ok.1 hb
  exact hf a (hx a ha) b hb

/-- Whatever the first step gives, the second one ensures the property. -/
theorem after {f : α → Except ε β} (hf : ∀ a, x = .ok a → Ensures (f a) R) :
    Ensures (x >>= f) R :=
  bind (P := fun a => x = .ok a) (fun _ => id) hf

theorem map {f : α → β} (hx : Ensures x P) (hf : ∀ a, P a → R (f a)) : Ensures (x.map f) R := by
  intro b hb
  obtain ⟨a, ha, rfl⟩ := map_eq_ok.1 hb
  exact hf a (hx a ha)

theorem foldlM {f : β → α → Except ε β} {l : List α} {b : β} (hb : R b)
    (hf : ∀ a ∈ l, ∀ b, R b → Ensures (f b a) R) : Ensures (l.foldlM f b) R :=
  fun _ h => foldlM_invariant (fun a ha b b' hb => hf a ha b hb b') hb h

theorem mapM {f : α → Except ε β} {l : List α} (hf : ∀ a ∈ l, Ensures (f a) R) :
    Ensures (l.mapM f) fun out => ∀ b ∈ out, R b := by
  induction l with
  | nil => exact ok nofun
  | cons a l ih =>
    rw [List.mapM_cons]
    refine bind (hf a List.mem_cons_self) fun b hb => ?_
    refine bind (ih fun a' ha' => hf a' (List.mem_cons_of_mem a ha')) fun bs hbs => ?_
    exact ok (List.forall_mem_cons.2 ⟨hb, hbs⟩)

end Ensures

/-! ## Names and texts -/

theorem requireIdentifier_eq_ok_iff {check : Except IdentifierError Unit} {id : Text} :
    requireIdentifier check id = .ok () ↔ check = .ok () := by
  cases check with
  | ok u => exact ⟨fun _ => rfl, fun _ => rfl⟩
  | error err => exact ⟨nofun, nofun⟩

theorem ne_nil_of_check {allowed : Char → Bool} {name : Text}
    (h : Identifier.check allowed name = .ok ()) : name ≠ [] := by
  rintro rfl
  cases h

/-- A name that was checked has allowed characters only. -/
theorem all_of_check {allowed : Char → Bool} {name : Text}
    (h : Identifier.check allowed name = .ok ()) : name.all allowed = true := by
  rw [Identifier.check] at h
  split at h
  · cases h
  · split at h
    · cases h
    · split at h
      · cases h
      · next hfind =>
        refine List.all_eq_true.2 fun c hc => ?_
        simpa using List.find?_eq_none.1 hfind c hc

theorem nonBlank?_eq_some {text t : Text} (h : nonBlank? text = some t) : t = Text.trim text := by
  rw [nonBlank?] at h
  split at h
  · cases h
  · exact (Option.some.inj h).symm

theorem ne_nil_of_nonBlank? {text t : Text} (h : nonBlank? text = some t) : t ≠ [] := by
  rw [nonBlank?] at h
  split at h
  · cases h
  · next hne => simpa [← Option.some.inj h] using hne

/-! ## Insertions -/

variable {P : Text → Prop} {body body' body'' : List Text}

/-- The second list is the first with some more lines that satisfy `P`. -/
inductive Grown (P : Text → Prop) (body : List Text) : List Text → Prop where
  | refl : Grown P body body
  | insert {front rest : List Text} {line : Text} :
      Grown P body (front ++ rest) → P line → Grown P body (front ++ line :: rest)

namespace Grown

theorem trans (h : Grown P body body') (h' : Grown P body' body'') : Grown P body body'' := by
  induction h' with
  | refl => exact h
  | insert _ hline ih => exact ih.insert hline

/-- What the new lines do not have, the two lists have in common. -/
theorem flatMap_eq {f : Text → List β} (h : Grown P body body') (hP : ∀ line, P line → f line = []) :
    body'.flatMap f = body.flatMap f := by
  induction h with
  | refl => rfl
  | insert _ hline ih =>
    rw [← ih, List.flatMap_append, List.flatMap_append, List.flatMap_cons, hP _ hline,
      List.nil_append]

theorem filterMap_eq {f : Text → Option β} (h : Grown P body body')
    (hP : ∀ line, P line → f line = none) : body'.filterMap f = body.filterMap f := by
  induction h with
  | refl => rfl
  | insert _ hline ih =>
    rw [← ih, List.filterMap_append, List.filterMap_append, List.filterMap_cons_none (hP _ hline)]

theorem mem_or (h : Grown P body body') {line : Text} (hline : line ∈ body') :
    line ∈ body ∨ P line := by
  induction h with
  | refl => exact .inl hline
  | insert _ hP ih =>
    rcases List.mem_append.1 hline with hmem | hmem
    · exact ih (List.mem_append_left _ hmem)
    · rcases List.mem_cons.1 hmem with rfl | hmem
      exacts [.inr hP, ih (List.mem_append_right _ hmem)]

end Grown

open Source

/-- Lines that are inserted below the declaration go to the body. -/
theorem insertLines_body {kind : Kind} {front texts : List Text} {line : Text} {i : Nat}
    {s s' : Source} (h : IsDeclared kind front line body s) (hi : front.length < i)
    (hok : insertLines i texts s = .ok s') : ∃ before after, body = before ++ after ∧
      before.length = i - (front.length + 1) ∧
      IsDeclared kind front line (before ++ texts ++ after) s' := by
  obtain ⟨hle, rfl⟩ := insertLines_eq_ok hok
  have hlines : s.lines = (front ++ [line]) ++ body := by
    rw [h.lines, List.append_assoc]
    rfl
  obtain ⟨k, rfl⟩ : ∃ k, i = (front ++ [line]).length + k :=
    ⟨i - (front.length + 1), by simp only [List.length_append, List.length_singleton]; omega⟩
  refine ⟨body.take k, body.drop k, (List.take_append_drop ..).symm, ?_, h.with_body ?_⟩
  · rw [hlines] at hle
    simp only [List.length_append, List.length_singleton] at hle
    simp only [List.length_take, List.length_append, List.length_singleton]
    omega
  · change s.lines.take _ ++ texts ++ s.lines.drop _ = _
    rw [hlines, List.take_length_add_append, List.drop_length_add_append]
    simp

theorem isBlank_indentStep : Text.IsBlank indentStep :=
  List.all_eq_true.1 (by decide)

theorem isBlank_bodyIndent (declaration : Option Nat) (s : Source) :
    Text.IsBlank (bodyIndent declaration s) := by
  rw [bodyIndent]
  split
  exacts [Text.isBlank_indent _, isBlank_indentStep]

/-! ## Flat sources -/

section Flat

open Text Source

variable {s : Source} {index count : Nat} {text : Text} {texts : List Text}

/-- The edit leaves a flat source behind, if it succeeds. -/
abbrev LeavesFlat (x : Except EditError Edited) : Prop :=
  Ensures x fun e => e.source.IsFlat

theorem lineAt_isFlat (h : s.IsFlat) : Ensures (lineAt index s) Text.IsFlat :=
  fun line hline => h line (List.mem_of_getElem? (lineAt_eq_ok hline))

theorem replaceLine_isFlat (h : s.IsFlat) (htext : Text.IsFlat text) :
    Ensures (replaceLine index text s) Source.IsFlat := by
  intro s' hs'
  obtain ⟨-, rfl⟩ := replaceLine_eq_ok hs'
  intro line hline
  rcases List.mem_or_eq_of_mem_set hline with hline | rfl
  exacts [h line hline, htext]

theorem insertLines_isFlat (h : s.IsFlat) (htexts : AllFlat texts) :
    Ensures (insertLines index texts s) Source.IsFlat := by
  intro s' hs'
  obtain ⟨-, rfl⟩ := insertLines_eq_ok hs'
  refine allFlat_append.2 ⟨allFlat_append.2 ⟨?_, htexts⟩, ?_⟩
  exacts [AllFlat.subset h (List.take_subset ..), AllFlat.subset h (List.drop_subset ..)]

theorem deleteLines_isFlat (h : s.IsFlat) :
    Ensures (deleteLines index count s) Source.IsFlat := by
  intro s' hs'
  rw [deleteLines, Source.deleteLines] at hs'
  split at hs'
  · cases hs'
    refine allFlat_append.2 ⟨?_, ?_⟩
    exacts [AllFlat.subset h (List.take_subset ..), AllFlat.subset h (List.drop_subset ..)]
  · cases hs'

theorem pushLine_isFlat (h : s.IsFlat) (htext : Text.IsFlat text) : (s.pushLine text).IsFlat :=
  allFlat_append.2 ⟨h, allFlat_cons.2 ⟨htext, allFlat_nil⟩⟩

theorem pushLines_isFlat (h : s.IsFlat) (htexts : AllFlat texts) :
    (texts.foldl (fun s line => s.pushLine line) s).IsFlat := by
  induction texts generalizing s with
  | nil => exact h
  | cons text texts ih =>
    obtain ⟨htext, htexts⟩ := allFlat_cons.1 htexts
    exact ih (pushLine_isFlat h htext) htexts

theorem deleteLineSet_isFlat (h : s.IsFlat) (indices : List Nat) :
    (s.deleteLineSet indices).IsFlat := by
  intro line hline
  rw [lines_deleteLineSet] at hline
  obtain ⟨p, hp, rfl⟩ := List.mem_map.1 hline
  have hmem := List.mem_map_of_mem (f := Prod.snd) (List.mem_filter.1 hp).1
  rw [map_snd_numbered] at hmem
  exact h _ hmem

theorem bodyIndent_isFlat (h : s.IsFlat) (declaration : Option Nat) :
    Text.IsFlat (bodyIndent declaration s) := by
  rw [bodyIndent]
  split
  · next hline => exact (h _ (List.drop_subset _ _ (List.mem_of_find?_eq_some hline))).indent
  · decide

theorem ensureDeclaration_isFlat (h : s.IsFlat) (kind : Kind) (declaration : Option Nat) :
    Ensures (ensureDeclaration kind declaration s) fun p => p.1.IsFlat := by
  cases declaration with
  | some line => exact .ok h
  | none =>
    have hdecl : AllFlat [kind.declaration] := by cases kind <;> decide
    rw [ensureDeclaration]
    exact (insertLines_isFlat h hdecl).map fun _ hs => hs

theorem nonBlank?_isFlat (h : Text.IsFlat text) : ∀ t ∈ nonBlank? text, Text.IsFlat t :=
  fun _ ht => nonBlank?_eq_some ht ▸ h.trim

/-- A name that was checked is flat. -/
theorem isFlat_of_requireIdentifier {allowed : Char → Bool} {name : Text}
    (hn : allowed '\n' = false) (hr : allowed '\r' = false)
    (h : requireIdentifier (Identifier.check allowed name) name = .ok ()) : Text.IsFlat name :=
  isFlat_of_all (all_of_check (requireIdentifier_eq_ok_iff.1 h)) hn hr

end Flat

end DiagramEditor.Edit
