import DiagramEditor.Proofs.Edit.Batch
import DiagramEditor.Proofs.Edit.EntityRelation.Flat
import DiagramEditor.Proofs.EntityRelation.Rename

/-!
# Another name for an entity

An entity is renamed by its word: wherever the old name stands as a word outside of quotes, the new one
takes its place, but for lines of attributes. Blocks stay open and closed (`checkBalance_renameIn`), so
this always succeeds, and if the word stands where a line names the entity and nowhere else
(`FindsNames`), the view is the old one with the new name (`applyOps_rename`).

A name may be a word where it names nothing. The entity `o` is also the second sign of the relationship
`}o..o{`, which is none after the renaming (`not_applyOps_rename`).
-/

namespace DiagramEditor.Edit.EntityRelation

open DiagramEditor.EntityRelation Source Text

variable {s s' : Source} {v : View} {old new name newName : Text} {start : Nat}

/-! ## Lines -/

/-- A line with the name replaced, if it is none of attributes. -/
def renamedLine (v : View) (start : Nat) (old new : Text) (i : Nat) (line : Text) : Text :=
  if i < start || isAttributeLine v i then line else replaceWord old new line

theorem lines_renameIn (v : View) (start : Nat) (old new : Text) (s : Source) :
    (renameIn v start old new s).lines =
      (numbered 0 s.lines).map fun p => renamedLine v start old new p.1 p.2 :=
  mapIdx_eq_map_numbered _ _

/-- Blocks are opened and closed where they were. -/
theorem checkBalance_renameIn (hnew : Relationship.isEntityName new = true) (v : View) (start : Nat)
    (old : Text) (s : Source) :
    (renameIn v start old new s).checkBalance blockRules = s.checkBalance blockRules := by
  rw [checkBalance, checkBalance, lines_renameIn]
  refine checkBalanceFrom_congr (forall₂_map_numbered fun p _ => ?_) 0 []
  rw [renamedLine]
  split
  exacts [rfl, blockStep_replaceWord hnew old p.2]

/-- Where the declaration stays, so do the numbers of the lines below it. -/
theorem body_renameIn (v : View) (start : Nat) (old new : Text)
    (h : (renameIn v start old new s).declarationOf? .er = s.declarationOf? .er) :
    (renameIn v start old new s).body .er =
      (s.body .er).map fun p => (p.1, renamedLine v start old new p.1 p.2) := by
  have hnumbered : ∀ (t : Source) (i : Nat),
      numbered i (t.lines.drop i) = (numbered 0 t.lines).drop i := by
    intro t i
    rw [← numbered_drop, Nat.zero_add]
  have hstart : bodyStart (renameIn v start old new s) = bodyStart s := by
    rw [bodyStart, bodyStart, h]
  rw [body_eq, body_eq, bodyTexts_eq, bodyTexts_eq, hstart, hnumbered, hnumbered, lines_renameIn,
    numbered_map, List.map_drop]

/-! ## Names -/

/-- The old name stands as a word where lines name the entity and nowhere else. On lines of attributes,
which stay as they are, it names nothing. -/
def FindsNames (old new : Text) (s : Source) : Prop :=
  ∀ q ∈ places s, if isAttributeLine (View.ofSource s) q.1 then
    old ∉ (Effect.ofLine q.2.2 q.2.1).written else Effect.IsRenamable old new q.2.2 q.2.1

instance : Decidable (FindsNames old new s) :=
  inferInstanceAs (Decidable (∀ q ∈ places s, if isAttributeLine (View.ofSource s) q.1 then
    old ∉ (Effect.ofLine q.2.2 q.2.1).written else Effect.IsRenamable old new q.2.2 q.2.1))

/-- Where the old name is found, the view comes out with the new one. -/
theorem ofSource_renameIn (hnew : Relationship.isEntityName new = true)
    (hview : new ∉ (View.ofSource s).names) (hfinds : FindsNames old new s)
    (h : (renameIn (View.ofSource s) (bodyStart s) old new s).declarationOf? .er =
      s.declarationOf? .er) :
    View.ofSource (renameIn (View.ofSource s) (bodyStart s) old new s) =
      (View.ofSource s).rename old new := by
  refine View.ofSource_rename (body_renameIn _ _ old new h) h hview ?_
  rintro ⟨i, line, inside⟩ hq
  have hstart := (mem_places_iff.1 hq).1
  have hline := hfinds _ hq
  dsimp only at hline ⊢
  split at hline
  · next hattribute =>
    rw [renamedLine, if_pos (by simp [hattribute])]
    exact Effect.ofLine_map_renamed hline
  · next hattribute =>
    rw [renamedLine, if_neg (by simp [hattribute, hstart])]
    exact Effect.ofLine_replaceWord hnew hline

/-- An entity of the view can be given every name that is none of the view. -/
theorem renameEntity_eq (hname : name ∈ (View.ofSource s).names)
    (hcheck : Identifier.checkEntity newName = .ok ()) (hnew : newName ∉ (View.ofSource s).names) :
    renameEntity name newName s = .ok
      ⟨renameIn (View.ofSource s) (bodyStart s) name newName s, some (.entity newName)⟩ := by
  obtain ⟨e, he⟩ := requireEntity_of_mem hname
  have hnone : ¬(newName ≠ name && (View.ofSource s).names.contains newName) = true := by
    simp [hnew]
  rw [renameEntity]
  simp only [he, requireIdentifier_eq_ok_iff.2 hcheck, bind, Except.bind, if_neg hnone,
    View.declarationLine_ofSource]
  rfl

/-! ## The edit -/

/-- An entity is renamed whatever the source is, and the blocks stay as they are. If the old name stands
as a word where the entity is named and nowhere else, and no declaration comes up in a source without
one, the new view is the old one with the new name: for the entity, at the ends of relationships, and
nowhere else. The new lines are those of their text if the old ones are. -/
theorem applyOps_rename (hname : name ∈ (View.ofSource s).names)
    (hcheck : Identifier.checkEntity newName = .ok ()) (hword : isWord newName = true)
    (hnew : newName ∉ (View.ofSource s).names) :
    ∃ s', (∀ ids, applyOps .er [.er (.renameEntity name newName)] ⟨s, none⟩ ids =
        (.ok ⟨s', some (.entity newName)⟩, ids)) ∧
      s'.length = s.length ∧ s'.checkBalance blockRules = s.checkBalance blockRules ∧
      (s.IsFlat → s'.IsFlat) ∧
      (FindsNames name newName s → (s.declarationOf? .er = none → s'.declarationOf? .er = none) →
        View.ofSource s' = (View.ofSource s).rename name newName) := by
  have hentity := isEntityName_of_checkEntity hcheck hword
  have hbalance := checkBalance_renameIn hentity (View.ofSource s) (bodyStart s) name s
  have hop : ∀ ids, applyOp .er (.er (.renameEntity name newName)) s ids = (.ok
      ⟨renameIn (View.ofSource s) (bodyStart s) name newName s, some (.entity newName)⟩, ids) := by
    intro ids
    rw [applyOp, apply, renameEntity_eq hname hcheck hnew]
  refine ⟨_, fun ids => applyOps_cons_of_eq (hop ids) hbalance none, List.length_mapIdx, hbalance,
    fun hs => ?_, fun hfinds hnone => ?_⟩
  · exact renameEntity_isFlat hs _ (renameEntity_eq hname hcheck hnew)
  · exact ofSource_renameIn hentity hnew hfinds
      (declarationOf?_apply _ {} (congrArg Prod.fst (hop {})) hnone)

/-- The entity `A` is found in a header and at the ends of relationships, next to a name that it is a part
of, and not in titles, labels and attributes. -/
theorem applyOps_rename_everywhere :
    let s : Source := .ofText
      "erDiagram\nA[\"A or\"] \x7b\nA x \"A\"\n\x7d\nA ||--|| A : \"to A\"\nC-A |o..|| A : r\nC".toList
    let new : Text := "C_1".toList
    ['A'] ∈ (View.ofSource s).names ∧ Identifier.checkEntity new = .ok () ∧ isWord new = true ∧
      new ∉ (View.ofSource s).names ∧ FindsNames ['A'] new s ∧ s.declarationOf? .er = some 0 ∧
      ∃ s', (∀ ids, applyOps .er [.er (.renameEntity ['A'] new)] ⟨s, none⟩ ids =
          (.ok ⟨s', some (.entity new)⟩, ids)) ∧
        s'.length = s.length ∧ s'.checkBalance blockRules = s.checkBalance blockRules ∧
        (s.IsFlat → s'.IsFlat) ∧ View.ofSource s' = (View.ofSource s).rename ['A'] new := by
  intro s new
  have hname : ['A'] ∈ (View.ofSource s).names := by decide +kernel
  have hcheck : Identifier.checkEntity new = .ok () := by decide +kernel
  have hword : isWord new = true := by decide +kernel
  have hnew : new ∉ (View.ofSource s).names := by decide +kernel
  have hfinds : FindsNames ['A'] new s := by decide +kernel
  have hdeclared : s.declarationOf? .er = some 0 := by decide +kernel
  obtain ⟨s', hok, hlength, hbalance, hflat, hview⟩ := applyOps_rename hname hcheck hword hnew
  refine ⟨hname, hcheck, hword, hnew, hfinds, hdeclared, s', hok, hlength, hbalance, hflat, ?_⟩
  refine hview hfinds fun hnone => ?_
  rw [hdeclared] at hnone
  cases hnone

/-- The name of the entity `o` is a word in the middle of a relationship too. The line is none of a
relationship after the renaming, and the other entities are gone with it. -/
theorem not_applyOps_rename :
    let s : Source := .ofText "erDiagram\no \x7b\nint x\n\x7d\nA \x7do..o\x7b B : has".toList
    let s' : Source := .ofText "erDiagram\nitem \x7b\nint x\n\x7d\nA \x7ditem..item\x7b B : has".toList
    let new : Text := "item".toList
    (View.ofSource s).names = [['o'], ['A'], ['B']] ∧ Identifier.checkEntity new = .ok () ∧
      isWord new = true ∧
      applyOps .er [.er (.renameEntity ['o'] new)] ⟨s, none⟩ {} =
        (.ok ⟨s', some (.entity new)⟩, {}) ∧
      (View.ofSource s').names = [new] ∧ (View.ofSource s).relationships.length = 1 ∧
      (View.ofSource s').relationships = [] ∧
      View.ofSource s' ≠ (View.ofSource s).rename ['o'] new := by
  intro s s' new
  have hnames : (View.ofSource s').names = [new] := by decide +kernel
  refine ⟨by decide +kernel, by decide +kernel, by decide +kernel, by decide +kernel, hnames,
    by decide +kernel, by decide +kernel, fun heq => ?_⟩
  rw [heq] at hnames
  exact absurd hnames (by decide +kernel)

end DiagramEditor.Edit.EntityRelation
