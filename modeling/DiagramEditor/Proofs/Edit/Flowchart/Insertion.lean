import DiagramEditor.Edit.Flowchart
import DiagramEditor.Proofs.Edit.Flowchart.Duplicate

/-!
# Edits that insert or move lines

Adding, duplicating and moving write new lines, and no such edit numbers the links anew in the
directives about them. So the properties stay with their links exactly where the new lines keep them
(`insertion_isAttached_iff`): always where a node or a subgraph is added or a node is duplicated or
moved, since none of these lines is a link or a directive. The copy of a subgraph may hold links, and
then the directives about the links behind it go wrong (`insertion_not_isAttached`).
-/

namespace DiagramEditor.Edit.Flowchart

open DiagramEditor.Flowchart Source Text

variable {s : Source} {ids : IdAllocator} {op : FlowchartOp} {e : Edited}

/-- The edits that insert or move lines. -/
def insertsLines : FlowchartOp → Bool
  | .addNode .. | .addEdge .. | .addSubgraph .. => true
  | .duplicateNode .. | .duplicateSubgraph .. | .moveNode .. => true
  | _ => false

/-- The number that a line has after such an edit. -/
def lineAfter (op : FlowchartOp) (s : Source) : Nat → Nat :=
  let v := View.ofSource s
  match op with
  | .addNode .. | .addEdge .. => lineAfterInsert s.length 1
  | .addSubgraph .. => lineAfterInsert s.length 2
  | .duplicateNode id => lineAfterBelow (copiedLines id v)
  | .duplicateSubgraph id =>
    match v.subgraph? id with
    | none => fun j => j
    | some g => lineAfterInsert (g.span.stop + 1) (s.slice g.span.start g.span.length).length
  | .moveNode id into => lineAfterMove id into v
  | _ => fun j => j

/-- What such an edit must not do. The line of a new link may be a directive, where a title in quotes
is the id of a subgraph and begins with the word of the directive; and the copy of a subgraph may
hold links and directives. -/
def InsertsWell (op : FlowchartOp) (s : Source) (ids : IdAllocator) : Prop :=
  let v := View.ofSource s
  match op with
  | .addEdge source target text => KeepsProperties v s.length [edgeLine source target text s]
  | .duplicateSubgraph id =>
    ∀ g ∈ v.subgraph? id, KeepsProperties v (g.span.stop + 1) (copiedBlock g ids s)
  | _ => True

/-- Lines that are added are inserted behind the last one. -/
theorem AddsLines.isAttached {front body : List Text} {line : Text} {n : Nat} {s' : Source}
    (h : IsDeclared .flowchart front line body s) (hadds : AddsLines front line body n s') :
    IsAttached (lineAfterInsert s.length n) s s' := by
  obtain ⟨texts, rfl, htexts, hdecl⟩ := hadds
  have hlength : s.length = front.length + 1 + body.length := by
    rw [Source.length, h.lines, List.length_append, List.length_cons]
    omega
  rw [← List.append_nil body] at h
  rw [hlength]
  rw [← List.append_nil (body ++ texts)] at hdecl
  exact (carries_insert h hdecl htexts).isAttached

/-- Every link keeps its properties exactly where the new lines do not get in between. -/
theorem insertion_isAttached_iff (hkind : s.kind? = some .flowchart) (hlength : s.length < indexBound)
    (hop : insertsLines op = true) (hok : (apply op s ids).1 = .ok e) :
    IsAttached (lineAfter op s) s e.source ↔ InsertsWell op s ids := by
  obtain ⟨front, line, body, hdecl⟩ := exists_isDeclared hkind
  cases op with
  | addNode id shape label => exact iff_of_true ((addNode_eq_ok hdecl hok).isAttached hdecl) trivial
  | addSubgraph id label => exact iff_of_true ((addSubgraph_eq_ok hdecl hok).isAttached hdecl) trivial
  | duplicateNode id => exact iff_of_true (duplicateNode_carries hdecl hok).isAttached trivial
  | moveNode id into =>
    exact iff_of_true (moveNode_carries hdecl hlength hok).isAttached trivial
  | addEdge source target text =>
    have hdecl' := addEdge_eq_ok hdecl hok
    have hlast : s.length = front.length + 1 + body.length := by
      rw [Source.length, hdecl.lines, List.length_append, List.length_cons]
      omega
    rw [← List.append_nil body] at hdecl
    rw [← List.append_nil (body ++ _), ← List.append_nil (body ++ _ ++ _)] at hdecl'
    rw [lineAfter, InsertsWell, hlast]
    exact isAttached_insert_iff hdecl hdecl' fun _ h => absurd h List.not_mem_nil
  | duplicateSubgraph id =>
    obtain ⟨g, before, after, tail, hg, rfl, hbefore, htail, hdecl'⟩ :=
      duplicateSubgraph_eq_ok hdecl hok
    have hiff := isAttached_insert_iff hdecl hdecl' htail
    rw [hbefore, copiedBlock, List.length_map] at hiff
    simp only [lineAfter, InsertsWell, hg, Option.mem_some_iff, forall_eq']
    exact hiff
  | _ => cases hop

/-- The link behind the copy has another number, and its directive names the copied link. -/
theorem insertion_not_isAttached :
    let s : Source := .ofText
      "flowchart TD\nsubgraph s\nA --> B\nend\nC --> D\nlinkStyle 1 stroke:red".toList
    let after : Source := .ofText ("flowchart TD\nsubgraph s\nA --> B\nend\n" ++
      "subgraph s_1\nA_1 --> B_1\nend\nC --> D\nlinkStyle 1 stroke:red").toList
    let op : FlowchartOp := .duplicateSubgraph ['s']
    s.kind? = some .flowchart ∧
      (apply op s {}).1 = .ok ⟨after, some (.subgraph "s_1".toList)⟩ ∧
      (View.ofSource s).links.map (fun r => (r.link.source.id, r.index)) = [(['A'], 0), (['C'], 1)] ∧
      (View.ofSource after).links.map (fun r => (r.link.source.id, r.index)) =
        [(['A'], 0), ("A_1".toList, 1), (['C'], 2)] ∧
      (View.ofSource s).propertiesAt 1 = [[("stroke".toList, "red".toList)]] ∧
      (View.ofSource after).propertiesAt 2 = [] ∧ ¬IsAttached (lineAfter op s) s after := by
  unfold IsAttached
  decide +kernel

/-- The directive names a link in front of the copy. -/
theorem insertion_isAttached_iff_in_front :
    let s : Source := .ofText
      "flowchart TD\nC --> D\nlinkStyle 0 stroke:red\nsubgraph s\nA --> B\nend".toList
    let after : Source := .ofText ("flowchart TD\nC --> D\nlinkStyle 0 stroke:red\n" ++
      "subgraph s\nA --> B\nend\nsubgraph s_1\nA_1 --> B_1\nend").toList
    let op : FlowchartOp := .duplicateSubgraph ['s']
    s.kind? = some .flowchart ∧ s.length < indexBound ∧ insertsLines op = true ∧
      (apply op s {}).1 = .ok ⟨after, some (.subgraph "s_1".toList)⟩ ∧
      (IsAttached (lineAfter op s) s after ↔ InsertsWell op s {}) ∧
      IsAttached (lineAfter op s) s after := by
  intro s after op
  have hkind : s.kind? = some .flowchart := by decide +kernel
  have hlength : s.length < indexBound := by decide +kernel
  have hok : (apply op s {}).1 = .ok ⟨after, some (.subgraph "s_1".toList)⟩ := by decide +kernel
  have hop : insertsLines op = true := rfl
  have hiff := insertion_isAttached_iff hkind hlength hop hok
  refine ⟨hkind, hlength, hop, hok, hiff, ?_⟩
  unfold IsAttached
  decide +kernel

end DiagramEditor.Edit.Flowchart
