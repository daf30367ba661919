import DiagramEditor.Edit.Batch
import DiagramEditor.Proofs.Edit.EntityRelation.Basic
import DiagramEditor.Proofs.Edit.Flowchart.Range
import DiagramEditor.Proofs.Edit.Sequence.Basic

/-!
# Batches that are put together

A batch applies its edits one after the other, so what every edit keeps the batch keeps
(`applyOps_invariant`), and a batch of two parts is one part behind the other (`applyOps_append`).
For whole documents this needs one thing more: between two batches the kind is read off the source
again, and the second part is applied as one of that kind. No edit touches the declaration
(`applyOp_declares`), so the kind stays and one batch answers what two would
(`Document.applyBatch_append`).

Since no edit asks for a line that is not there, whatever source it meets, no batch is refused for
one (`Document.applyBatch_ne_lineOutOfRange`).
-/

namespace DiagramEditor

open Text Source

variable {kind : Kind} {s : Source} {ops a b : List Op} {ids : IdAllocator}

namespace Edit

/-! ## One edit -/

theorem isBalanced_iff : isBalanced kind s = true ↔ s.checkBalance kind.blockRules = .ok () := by
  rw [isBalanced]
  cases s.checkBalance kind.blockRules with
  | ok u => exact ⟨fun _ => rfl, fun _ => rfl⟩
  | error err => exact ⟨nofun, nofun⟩

theorem keepBalance_eq_ok {e e' : Edited} (h : keepBalance kind s e = .ok e') :
    e' = e ∧ (isBalanced kind s = true → isBalanced kind e.source = true) := by
  rw [keepBalance] at h
  split at h
  · obtain ⟨u, hu, rfl⟩ := map_eq_ok.1 h
    refine ⟨rfl, fun _ => isBalanced_iff.2 ?_⟩
    cases hcheck : e.source.checkBalance kind.blockRules with
    | ok _ => rfl
    | error err => rw [hcheck] at hu; cases hu
  · next hs => exact ⟨(Except.ok.inj h).symm, fun hs' => absurd hs' hs⟩

/-- An edit that does not unbalance the blocks is kept. -/
theorem keepBalance_of_isBalanced {e : Edited}
    (h : isBalanced kind s = true → isBalanced kind e.source = true) :
    keepBalance kind s e = .ok e := by
  rw [keepBalance]
  split
  · next hbalanced =>
    rw [isBalanced_iff.1 (h hbalanced)]
    rfl
  · rfl

/-- An edit that opens and closes the same blocks is kept. -/
theorem keepBalance_of_checkBalance_eq {e : Edited}
    (h : e.source.checkBalance kind.blockRules = s.checkBalance kind.blockRules) :
    keepBalance kind s e = .ok e :=
  keepBalance_of_isBalanced fun hbalanced => by rwa [isBalanced, h]

/-- Every edit leaves the declaration of the kind the first line of content. -/
theorem applyOp_declares {front : List Text} {line : Text} (h : Declares kind front line s) (op : Op)
    (ids : IdAllocator) : LeavesDeclaration kind front line (applyOp kind op s ids).1 := by
  cases kind with
  | flowchart =>
    cases op with
    | flowchart op => exact Flowchart.apply_declares h op ids
    | _ => exact .error _
  | er =>
    cases op with
    | er op => exact (EntityRelation.apply_declares h op ids).leavesDeclaration
    | _ => exact .error _
  | sequence =>
    cases op with
    | sequence op => exact (Sequence.apply_declares h op).leavesDeclaration
    | _ => exact .error _

/-- Every edit finds its lines, whatever it is asked to do to whatever source. -/
theorem applyOp_inRange (kind : Kind) (op : Op) (s : Source) (ids : IdAllocator) :
    InRange (applyOp kind op s ids).1 := by
  cases kind with
  | flowchart =>
    cases op with
    | flowchart op => exact Flowchart.apply_inRange op s ids
    | _ => exact .error rfl
  | er =>
    cases op with
    | er op => exact EntityRelation.apply_inRange op s ids
    | _ => exact .error rfl
  | sequence =>
    cases op with
    | sequence op => exact Sequence.apply_inRange op s
    | _ => exact .error rfl

theorem keepBalance_inRange {e : Edited} : InRange (keepBalance kind s e) := by
  rw [keepBalance]
  split
  exacts [.map (checkBalance_inRange kind.blockRules e.source), .ok _]

/-! ## Edits one after the other -/

theorem applyOps_inRange (ops : List Op) (e : Edited) (ids : IdAllocator) :
    InRange (applyOps kind ops e ids).1 := by
  induction ops generalizing e ids with
  | nil => exact .ok e
  | cons op ops ih =>
    rw [applyOps]
    split
    · next err _ hop =>
      exact .of_eq_error (applyOp_inRange kind op e.source ids) (congrArg Prod.fst hop)
    · next next _ _ =>
      split
      · next err hkept =>
        exact .of_eq_error keepBalance_inRange hkept
      · exact ih _ _

/-- An edit that succeeds and opens and closes the same blocks, in front of others. -/
theorem applyOps_cons_of_eq {op : Op} {e : Edited} {ids' : IdAllocator}
    (hop : applyOp kind op s ids = (.ok e, ids'))
    (hbalance : e.source.checkBalance kind.blockRules = s.checkBalance kind.blockRules)
    (earlier : Option Handle) : applyOps kind (op :: ops) ⟨s, earlier⟩ ids =
      applyOps kind ops ⟨e.source, e.handle.or earlier⟩ ids' := by
  rw [applyOps, hop]
  dsimp only
  rw [keepBalance_of_checkBalance_eq hbalance]

theorem applyOps_singleton_of_eq {op : Op} {s' : Source} {handle : Handle} {ids' : IdAllocator}
    (hop : applyOp kind op s ids = (.ok ⟨s', some handle⟩, ids'))
    (hbalance : s'.checkBalance kind.blockRules = s.checkBalance kind.blockRules)
    (earlier : Option Handle) :
    applyOps kind [op] ⟨s, earlier⟩ ids = (.ok ⟨s', some handle⟩, ids') := by
  rw [applyOps_cons_of_eq hop hbalance]
  rfl

/-- A single edit that succeeds and does not unbalance the blocks. -/
theorem applyOps_singleton_of_isBalanced {op : Op} {e : Edited} {ids' : IdAllocator}
    (hop : applyOp kind op s ids = (.ok e, ids'))
    (hbalance : isBalanced kind s = true → isBalanced kind e.source = true)
    (earlier : Option Handle) : applyOps kind [op] ⟨s, earlier⟩ ids =
      (.ok ⟨e.source, e.handle.or earlier⟩, ids') := by
  rw [applyOps, hop]
  dsimp only
  rw [keepBalance_of_isBalanced hbalance]
  rfl

/-- A single edit that is accepted leaves behind what it does, and balanced blocks balanced. -/
theorem applyOps_singleton_eq_ok {op : Op} {earlier : Option Handle} {e : Edited}
    (h : (applyOps kind [op] ⟨s, earlier⟩ ids).1 = .ok e) :
    ∃ next, applyOp kind op s ids = (.ok next, (applyOps kind [op] ⟨s, earlier⟩ ids).2) ∧
      e = ⟨next.source, next.handle.or earlier⟩ ∧
      (isBalanced kind s = true → isBalanced kind next.source = true) := by
  rw [applyOps] at h ⊢
  rcases hop : applyOp kind op s ids with ⟨_ | next, ids'⟩
  · rw [hop] at h
    cases h
  · rw [hop] at h
    dsimp only at h ⊢
    cases hkept : keepBalance kind s next with
    | error err => rw [hkept] at h; cases h
    | ok kept =>
      rw [hkept] at h
      obtain ⟨rfl, hbalanced⟩ := keepBalance_eq_ok hkept
      exact ⟨kept, rfl, (Except.ok.inj h).symm, hbalanced⟩

/-- What every edit keeps that does not unbalance the blocks, a batch keeps. -/
theorem applyOps_invariant {P : Source → Prop} {e : Edited}
    (hstep : ∀ op ∈ ops, ∀ s ids next, P s → (applyOp kind op s ids).1 = .ok next →
      (isBalanced kind s = true → isBalanced kind next.source = true) → P next.source)
    (h : P e.source) (ids : IdAllocator) :
    Ensures (applyOps kind ops e ids).1 fun e => P e.source := by
  induction ops generalizing e ids with
  | nil => exact .ok h
  | cons op ops ih =>
    obtain ⟨hop, hops⟩ := List.forall_mem_cons.1 hstep
    rw [applyOps]
    split
    · exact .error _
    · next next _ hnext =>
      split
      · exact .error _
      · next kept hkept =>
        obtain ⟨rfl, hbalanced⟩ := keepBalance_eq_ok hkept
        exact ih (e := ⟨kept.source, kept.handle.or e.handle⟩) hops
          (hop e.source ids kept h (congrArg Prod.fst hnext) hbalanced) _

theorem applyOps_declares {front : List Text} {line : Text} {e : Edited} (ops : List Op)
    (h : Declares kind front line e.source) (ids : IdAllocator) :
    LeavesDeclaration kind front line (applyOps kind ops e ids).1 := by
  -- A deletion may take lines of the prelude along, so the prelude is kept up to a sublist.
  refine applyOps_invariant (P := fun s => ∃ front', front'.Sublist front ∧
    Declares kind front' line s) ?_ ⟨front, .refl front, h⟩ ids
  rintro op - s ids next ⟨front₁, hfront₁, hs⟩ hnext -
  obtain ⟨front₂, hfront₂, hnext⟩ := applyOp_declares hs op ids next hnext
  exact ⟨front₂, hfront₂.trans hfront₁, hnext⟩

/-- One step after another. The allocator moves on in any case. -/
def andThen {α β : Type} (x : Except EditError α × IdAllocator)
    (f : α → IdAllocator → Except EditError β × IdAllocator) : Except EditError β × IdAllocator :=
  match x with
  | (.error err, ids) => (.error err, ids)
  | (.ok a, ids) => f a ids

theorem applyOps_append (e : Edited) (ids : IdAllocator) : applyOps kind (a ++ b) e ids =
    andThen (applyOps kind a e ids) (applyOps kind b) := by
  induction a generalizing e ids with
  | nil => rfl
  | cons op a ih =>
    rw [List.cons_append, applyOps, applyOps]
    split
    · rfl
    · split
      · rfl
      · exact ih _ _

/-- A handle that was there before comes back if no edit gives one. -/
theorem applyOps_handle (s : Source) (own earlier : Option Handle) (ids : IdAllocator) :
    applyOps kind ops ⟨s, own.or earlier⟩ ids = andThen (applyOps kind ops ⟨s, own⟩ ids)
      fun e ids => (.ok ⟨e.source, e.handle.or earlier⟩, ids) := by
  induction ops generalizing s own ids with
  | nil => rfl
  | cons op ops ih =>
    rw [applyOps, applyOps]
    rcases applyOp kind op s ids with ⟨_ | next, ids⟩
    · rfl
    · dsimp only
      cases keepBalance kind s next with
      | error => rfl
      | ok kept =>
        dsimp only
        rw [← Option.or_assoc]
        exact ih kept.source (kept.handle.or own) ids

end Edit

/-! ## Batches one after the other -/

namespace Document

open Edit

variable {d : Document} {baseRev : Nat}

/-- Two batches, the second one for the revision that the first one leaves. -/
def applyBoth (baseRev : Nat) (a b : List Op) (d : Document) (ids : IdAllocator) :
    Except EditError (BatchResult × BatchResult × Document) × IdAllocator :=
  andThen (d.applyBatch baseRev a ids) fun first ids =>
    andThen (first.2.applyBatch first.1.newRev b ids) fun second ids =>
      (.ok (first.1, second.1, second.2), ids)

/-- One batch answers what two batches answer together: it is refused for the same reason or
accepted with the same source and kind, all their edits and the last of their handles. -/
inductive Composes : Except EditError (BatchResult × Document) × IdAllocator →
    Except EditError (BatchResult × BatchResult × Document) × IdAllocator → Prop
  | refused (err : EditError) (ids : IdAllocator) : Composes (.error err, ids) (.error err, ids)
  | accepted {r r₁ r₂ : BatchResult} {d d' : Document} (ids : IdAllocator)
      (applied : r.applied = r₁.applied + r₂.applied) (handle : r.handle = r₂.handle.or r₁.handle)
      (source : d.source = d'.source) (kind : d.kind = d'.kind) :
      Composes (.ok (r, d), ids) (.ok (r₁, r₂, d'), ids)

theorem applyBatch_of_conflict (h : baseRev ≠ d.rev) (ops : List Op) (ids : IdAllocator) :
    d.applyBatch baseRev ops ids = (.error (.conflict baseRev d.rev), ids) := by
  rw [applyBatch, if_pos h]

theorem applyBatch_nil (d : Document) (ids : IdAllocator) :
    d.applyBatch d.rev [] ids = (.ok (⟨d.rev, 0, none⟩, d), ids) := by
  rw [applyBatch, if_neg (by simp)]
  rfl

theorem applyBatch_of_ne_nil (h : ops ≠ []) (ids : IdAllocator) : d.applyBatch d.rev ops ids =
    andThen (applyOps d.kind ops ⟨d.source, none⟩ ids) fun e ids =>
      let d := (d.replaceSource e.source).bumpRev
      (.ok (⟨d.rev, ops.length, e.handle⟩, d), ids) := by
  rw [applyBatch, if_neg (by simp), if_neg (by simpa using h)]
  rcases applyOps d.kind ops ⟨d.source, none⟩ ids with ⟨_ | e, ids'⟩
  · rfl
  · rfl

/-- A batch of one edit that is accepted leaves behind what the edit does, and balanced blocks
balanced. -/
theorem applyBatch_singleton_eq_ok {op : Op} {r : BatchResult} {d' : Document}
    (h : (d.applyBatch baseRev [op] ids).1 = .ok (r, d')) :
    ∃ e, (applyOp d.kind op d.source ids).1 = .ok e ∧ d'.source = e.source ∧
      (isBalanced d.kind d.source = true → isBalanced d.kind d'.source = true) := by
  by_cases hrev : baseRev = d.rev
  · subst hrev
    rw [applyBatch_of_ne_nil (List.cons_ne_nil op [])] at h
    rcases hops : applyOps d.kind [op] ⟨d.source, none⟩ ids with ⟨_ | e, ids'⟩
    · rw [hops] at h
      cases h
    · rw [hops] at h
      obtain ⟨next, hop, rfl, hbalanced⟩ := applyOps_singleton_eq_ok (congrArg Prod.fst hops)
      cases h
      exact ⟨next, congrArg Prod.fst hop, rfl, hbalanced⟩
  · rw [applyBatch_of_conflict hrev] at h
    cases h

/-- No batch is refused for a line that is not there, whatever the document is, the edits ask for and
the allocator has given out. The lines that edits go by come from views, and a view of whatever
source remembers lines of the body only. -/
theorem applyBatch_ne_lineOutOfRange (d : Document) (baseRev : Nat) (ops : List Op)
    (ids : IdAllocator) :
    (∀ index length, (d.applyBatch baseRev ops ids).1 ≠
        .error (.source (.lineOutOfRange index length))) ∧
      ∀ s : Source,
        (Flowchart.View.ofSource s).IsWithin (fun i => ∃ text, (i, text) ∈ s.body .flowchart) ∧
        (EntityRelation.View.ofSource s).IsWithin (fun i => ∃ text, (i, text) ∈ s.body .er) ∧
        (Sequence.View.ofSource s).IsWithin (fun i => ∃ text, (i, text) ∈ s.body .sequence) := by
  refine ⟨?_, fun s => ⟨Flowchart.View.isWithin_ofSource s, EntityRelation.View.isWithin_ofSource s,
    Sequence.View.isWithin_ofSource s⟩⟩
  rw [applyBatch]
  split
  · exact InRange.error rfl
  · split
    · exact InRange.ok _
    · exact InRange.map (applyOps_inRange ops { source := d.source } ids)

@[simp]
theorem source_replaceSource (s : Source) (d : Document) : (d.replaceSource s).source = s := rfl

@[simp]
theorem source_bumpRev (d : Document) : d.bumpRev.source = d.source := rfl

@[simp]
theorem kind_bumpRev (d : Document) : d.bumpRev.kind = d.kind := rfl

theorem kind_replaceSource (h : s.kind? = some kind) : (d.replaceSource s).kind = kind := by
  rw [replaceSource, h]
  rfl

/-- Where a document has the kind that its source declares, a batch of two parts answers what the
parts answer one after the other, whatever it is made for and whichever ids are given out. No edit
touches the declaration or writes anything in front of it. -/
theorem applyBatch_append (hkind : d.source.kind? = some d.kind) (ha : a ≠ []) (hb : b ≠ [])
    (baseRev : Nat) (ids : IdAllocator) :
    Composes (d.applyBatch baseRev (a ++ b) ids) (d.applyBoth baseRev a b ids) ∧
      ∃ front line, Declares d.kind front line d.source ∧
        ∀ op ids, LeavesDeclaration d.kind front line (applyOp d.kind op d.source ids).1 := by
  obtain ⟨front, line, hdecl⟩ := exists_declares hkind
  refine ⟨?_, front, line, hdecl, applyOp_declares hdecl⟩
  rw [applyBoth]
  by_cases hrev : baseRev = d.rev
  · subst hrev
    rw [applyBatch_of_ne_nil ha, applyBatch_of_ne_nil (List.append_ne_nil_of_left_ne_nil ha b),
      applyOps_append]
    have hfirst := applyOps_declares (e := ⟨d.source, none⟩) a hdecl ids
    rcases hops : applyOps d.kind a ⟨d.source, none⟩ ids with ⟨_ | ⟨source, handle⟩, ids₁⟩
    · exact .refused _ _
    · -- The second batch meets a document of the same kind.
      obtain ⟨front', -, hsource⟩ := hfirst ⟨source, handle⟩ (congrArg Prod.fst hops)
      have hsame : (d.replaceSource source).kind = d.kind := kind_replaceSource hsource.kind?
      have hrest : applyOps d.kind b ⟨source, handle⟩ ids₁ = _ :=
        applyOps_handle source none handle ids₁
      have hsecond := applyBatch_of_ne_nil (d := (d.replaceSource source).bumpRev) hb ids₁
      rw [kind_bumpRev, hsame, source_bumpRev, source_replaceSource] at hsecond
      simp only [andThen, hrest, hsecond]
      rcases applyOps d.kind b ⟨source, none⟩ ids₁ with ⟨_ | e, ids₂⟩
      · exact .refused _ _
      · refine .accepted ids₂ List.length_append rfl rfl ?_
        exact congrArg e.source.kind?.getD hsame.symm
  · rw [applyBatch_of_conflict hrev, applyBatch_of_conflict hrev]
    exact .refused _ _

/-- A node is added under a fresh id and another one deleted, and with it a line of front matter. Only
the first part gives a handle. -/
theorem applyBatch_append_front_matter :
    let d : Document := ⟨.flowchart, .ofText "---\nclick A\n---\nflowchart TD\nA --> B[b]".toList, 3⟩
    let a : List Op := [.flowchart (.addNode none .rect "new".toList)]
    let b : List Op := [.flowchart (.deleteNode ['A'])]
    d.source.kind? = some d.kind ∧ a ≠ [] ∧ b ≠ [] ∧
      (d.applyBatch 3 (a ++ b) {}).1.toOption.map (fun p => (p.2.source.toText, p.1.handle)) =
        some ("---\n---\nflowchart TD\nB[b]\nN1[\"new\"]".toList, some (.node "N1".toList)) ∧
      Composes (d.applyBatch 3 (a ++ b) {}) (d.applyBoth 3 a b {}) ∧
        ∃ front line, Declares d.kind front line d.source ∧
          ∀ op ids, LeavesDeclaration d.kind front line (applyOp d.kind op d.source ids).1 := by
  intro d a b
  have hkind : d.source.kind? = some d.kind := by decide +kernel
  have ha : a ≠ [] := by decide
  have hb : b ≠ [] := by decide
  exact ⟨hkind, ha, hb, by decide +kernel, applyBatch_append hkind ha hb 3 {}⟩

end Document

end DiagramEditor
