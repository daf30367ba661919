import DiagramEditor.Document
import DiagramEditor.Proofs.Edit.Basic
import DiagramEditor.Proofs.Source.Block

/-!
# Edits behind the declaration

The steps that edits share leave the prelude and the declaration of a source alone, as long as they
go to lines of its body (`Declares`). A view remembers no other lines, so neither do the edits.

An edit that needs a declaration puts one on top of a source that has none
(`exists_ensureDeclaration`). The lines of the body are the same ones then, one line further down, and
blocks that were balanced still are (`IsGround`).
-/

namespace DiagramEditor

open Text

variable {kind : Kind} {front body : List Text} {line text : Text} {s : Source} {i : Nat}

namespace Source

/-- The source starts with these lines of prelude and this declaration. -/
def Declares (kind : Kind) (front : List Text) (line : Text) (s : Source) : Prop :=
  ∃ body, IsDeclared kind front line body s

theorem IsDeclared.declares (h : IsDeclared kind front line body s) : Declares kind front line s :=
  ⟨body, h⟩

theorem exists_declares (h : s.kind? = some kind) : ∃ front line, Declares kind front line s := by
  obtain ⟨front, line, body, h⟩ := exists_isDeclared h
  exact ⟨front, line, body, h⟩

theorem exists_declares_of_declarationOf? {d : Nat} (h : s.declarationOf? kind = some d) :
    ∃ front line, Declares kind front line s := by
  obtain ⟨⟨i, kind'⟩, hdecl, -⟩ := Option.map_eq_some_iff.1 h
  obtain ⟨hdecl, hkind⟩ := Option.filter_eq_some_iff.1 hdecl
  refine exists_declares ?_
  rw [Source.kind?, hdecl]
  exact congrArg some (of_decide_eq_true hkind)

namespace Declares

theorem kind? (h : Declares kind front line s) : s.kind? = some kind := by
  obtain ⟨body, h⟩ := h
  exact h.kind?

theorem declarationOf? (h : Declares kind front line s) :
    s.declarationOf? kind = some front.length := by
  obtain ⟨body, h⟩ := h
  exact h.declarationOf?

/-- The lines of the body stand behind the declaration. -/
theorem lt_of_mem_body (h : Declares kind front line s) (hi : (i, text) ∈ s.body kind) :
    front.length < i := by
  obtain ⟨body, h⟩ := h
  rw [h.body_eq] at hi
  exact (mem_numbered.1 hi).1

/-- Whatever follows the declaration, it stays the declaration. -/
theorem of_take (h : Declares kind front line s) {s' : Source} {rest : List Text}
    (hi : front.length < i) (hlines : s'.lines = s.lines.take i ++ rest) :
    Declares kind front line s' := by
  obtain ⟨body, h⟩ := h
  obtain ⟨k, rfl⟩ : ∃ k, i = (front ++ [line]).length + k :=
    ⟨i - (front.length + 1), by simp only [List.length_append, List.length_singleton]; omega⟩
  have hs : s.lines = (front ++ [line]) ++ body := h.lines.trans (List.append_cons ..)
  refine ⟨body.take k ++ rest, h.with_body ?_⟩
  rw [hlines, hs, List.take_length_add_append, List.append_assoc, List.append_assoc]
  rfl

end Declares

end Source

namespace Edit

open Source

variable {texts : List Text} {count : Nat}

/-- The edit leaves the prelude and the declaration alone, if it succeeds. -/
abbrev LeavesDeclared (kind : Kind) (front : List Text) (line : Text)
    (x : Except EditError Edited) : Prop :=
  Ensures x fun e => Declares kind front line e.source

/-- The declaration stays the first line of content, if the edit succeeds. Lines in front of it may
be gone. -/
abbrev LeavesDeclaration (kind : Kind) (front : List Text) (line : Text)
    (x : Except EditError Edited) : Prop :=
  Ensures x fun e => ∃ front', front'.Sublist front ∧ Declares kind front' line e.source

theorem LeavesDeclared.leavesDeclaration {x : Except EditError Edited}
    (h : LeavesDeclared kind front line x) : LeavesDeclaration kind front line x :=
  h.mono fun _ he => ⟨front, .refl front, he⟩

theorem replaceLine_declares (h : Declares kind front line s) (hi : front.length < i) :
    Ensures (replaceLine i text s) (Declares kind front line) := by
  intro s' hs'
  exact h.of_take hi ((lines_replaceLine hs').trans (List.append_assoc ..))

theorem insertLines_declares (h : Declares kind front line s) (hi : front.length < i) :
    Ensures (insertLines i texts s) (Declares kind front line) := by
  intro s' hs'
  obtain ⟨-, rfl⟩ := insertLines_eq_ok hs'
  exact h.of_take hi (List.append_assoc ..)

theorem deleteLines_declares (h : Declares kind front line s) (hi : front.length < i) :
    Ensures (deleteLines i count s) (Declares kind front line) := by
  intro s' hs'
  rw [deleteLines, Source.deleteLines] at hs'
  split at hs'
  · cases hs'
    exact h.of_take hi rfl
  · cases hs'

theorem pushLine_declares (h : Declares kind front line s) (text : Text) :
    Declares kind front line (s.pushLine text) := by
  obtain ⟨body, h⟩ := h
  refine ⟨body ++ [text], h.with_body ?_⟩
  rw [pushLine, h.lines, List.append_assoc]
  rfl

theorem pushLines_declares (h : Declares kind front line s) (texts : List Text) :
    Declares kind front line (texts.foldl (fun s line => s.pushLine line) s) :=
  List.foldlRecOn texts _ h fun _ hs text _ => pushLine_declares hs text

theorem deleteLineSet_declares (h : Declares kind front line s) {indices : List Nat}
    (hindices : ∀ i ∈ indices, front.length < i) :
    Declares kind front line (s.deleteLineSet indices) := by
  obtain ⟨body, h⟩ := h
  have hkeep : ∀ i, i ≤ front.length → (!indices.contains i) = true := by
    intro i hi
    rw [Bool.not_eq_true', ← Bool.not_eq_true, List.contains_iff_mem]
    exact fun hmem => absurd (hindices i hmem) (by omega)
  have hfront : ∀ p ∈ numbered 0 front, (!indices.contains p.1) = true := by
    intro p hp
    have := (List.getElem?_eq_some_iff.1 (mem_numbered.1 hp).2).1
    exact hkeep _ (by omega)
  have := h.of_filter (fun i => !indices.contains i) Prod.snd (lines_deleteLineSet indices s)
    (fun p hp hp' => nomatch (hfront p hp).symm.trans hp') (hkeep _ (Nat.le_refl _))
    fun _ _ _ => rfl
  rw [List.filter_eq_self.2 hfront, map_snd_numbered] at this
  exact this.declares

/-! ## New declarations -/

/-- What is declared needs no declaration. -/
theorem ensureDeclaration_of_declares (h : Declares kind front line s) :
    ensureDeclaration kind (s.declarationOf? kind) s = .ok (s, front.length) := by
  rw [h.declarationOf?]
  rfl

/-- The number of lines that a declaration of the kind takes on top of the source. -/
def topLines (kind : Kind) (s : Source) : Nat :=
  if (s.declarationOf? kind).isSome then 0 else 1

/-- The second source is the first one with a declaration of the kind. -/
structure IsGround (kind : Kind) (s s₁ : Source) : Prop where
  declaration : s₁.declarationOf? kind = some ((s.declarationOf? kind).getD 0)
  body : s₁.body kind = (s.body kind).map fun p => (p.1 + topLines kind s, p.2)
  length : s₁.length = s.length + topLines kind s
  balance : s.checkBalance kind.blockRules = .ok () → s₁.checkBalance kind.blockRules = .ok ()

/-- Every source gets a declaration that has none. -/
theorem exists_ensureDeclaration (kind : Kind) (s : Source) : ∃ s₁,
    ensureDeclaration kind (s.declarationOf? kind) s = .ok (s₁, (s.declarationOf? kind).getD 0) ∧
      IsGround kind s s₁ := by
  cases hd : s.declarationOf? kind with
  | some d =>
    have htop : topLines kind s = 0 := by rw [topLines, hd]; rfl
    refine ⟨s, rfl, by rw [hd]; rfl, ?_, by rw [htop]; rfl, id⟩
    rw [htop]
    exact (List.map_id _).symm
  | none =>
    have htop : topLines kind s = 1 := by rw [topLines, hd]; rfl
    have hensure : ensureDeclaration kind none s =
        .ok ({ s with lines := kind.declaration :: s.lines }, 0) := by
      simp [ensureDeclaration, insertLines, Source.insertLines, Except.mapError, Except.map]
    have hdecl : IsDeclared kind [] kind.declaration s.lines
        { s with lines := kind.declaration :: s.lines } :=
      ⟨rfl, (false, false), rfl, by cases kind <;> constructor <;> decide⟩
    have hbody : s.body kind = numbered 0 s.lines := by
      rw [Source.body, hd, numberedFrom_eq]
      rfl
    have hstay : blockStep kind.blockRules kind.declaration = .stay := by cases kind <;> decide
    refine ⟨_, hensure, by rw [hdecl.declarationOf?, hd]; rfl, ?_, by rw [htop]; rfl, fun hbalance => ?_⟩
    · rw [htop, hbody, hdecl.body_eq, List.length_nil, numbered_add 0 1]
    · simp only [checkBalance, checkBalanceFrom, hstay]
      exact checkBalanceFrom_of_length hbalance rfl

end Edit

end DiagramEditor
