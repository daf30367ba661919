import DiagramEditor.Proofs.Source.Nesting

/-!
# Depth

Lines are balanced if the depth comes down to nothing behind them and never falls below
(`checkBalance_eq_ok_iff`). So lines stay balanced as long as those that open or close a block stay
(`depthAfter?_map_filter`), and also with a whole block put between them
(`depthAfter?_block`).

In a source in which further lines stand right below some of the old ones (`withBelow`), the old lines
are all there and in order (`sublist_withBelow`), and where the further lines neither open nor close a
block the depth is what it was (`depthAfter?_withBelow`).
-/

namespace DiagramEditor.Source

variable {rules : BlockRules} {index depth : Nat} {openers : List Nat} {line closer : Text}
  {lines : List Text}

/-- How many blocks are open behind the lines, unless a line closes one where none is open. -/
def depthAfter? (rules : BlockRules) : (depth : Nat) → List Text → Option Nat
  | depth, [] => some depth
  | depth, line :: rest =>
    match blockStep rules line, depth with
    | .enter, depth => depthAfter? rules (depth + 1) rest
    | .leave, 0 => none
    | .leave, depth + 1 => depthAfter? rules depth rest
    | .stay, depth => depthAfter? rules depth rest

theorem depthAfter?_enter (h : blockStep rules line = .enter) (depth : Nat) (lines : List Text) :
    depthAfter? rules depth (line :: lines) = depthAfter? rules (depth + 1) lines := by
  simp only [depthAfter?, h]

theorem depthAfter?_leave (h : blockStep rules line = .leave) (depth : Nat) (lines : List Text) :
    depthAfter? rules (depth + 1) (line :: lines) = depthAfter? rules depth lines := by
  simp only [depthAfter?, h]

theorem depthAfter?_stay (h : blockStep rules line = .stay) (depth : Nat) (lines : List Text) :
    depthAfter? rules depth (line :: lines) = depthAfter? rules depth lines := by
  simp only [depthAfter?, h]

/-- What one line does to the depth is decided by its step alone. -/
theorem depthAfter?_congr {line' : Text} {lines' : List Text}
    (h : blockStep rules line' = blockStep rules line)
    (hrest : ∀ depth, depthAfter? rules depth lines' = depthAfter? rules depth lines) (depth : Nat) :
    depthAfter? rules depth (line' :: lines') = depthAfter? rules depth (line :: lines) := by
  cases hstep : blockStep rules line with
  | leave => cases depth <;> simp only [depthAfter?, h, hstep, hrest]
  | _ => simp only [depthAfter?, h, hstep, hrest]

theorem checkBalanceFrom_eq_ok_iff : checkBalanceFrom rules index openers lines = .ok () ↔
    depthAfter? rules openers.length lines = some 0 := by
  induction lines generalizing index openers with
  | nil => cases openers <;> simp [checkBalanceFrom, depthAfter?]
  | cons line lines ih =>
    cases hstep : blockStep rules line with
    | leave =>
      cases openers with
      | nil => simp [checkBalanceFrom, depthAfter?, hstep]
      | cons start outer =>
        rw [List.length_cons, depthAfter?_leave hstep, ← @ih (index + 1)]
        simp only [checkBalanceFrom, hstep]
    | enter =>
      rw [depthAfter?_enter hstep, ← List.length_cons (a := index), ← @ih (index + 1)]
      simp only [checkBalanceFrom, hstep]
    | stay =>
      rw [depthAfter?_stay hstep, ← @ih (index + 1)]
      simp only [checkBalanceFrom, hstep]

theorem checkBalance_eq_ok_iff {s : Source} :
    s.checkBalance rules = .ok () ↔ depthAfter? rules 0 s.lines = some 0 :=
  checkBalanceFrom_eq_ok_iff

/-- Lines change nothing but the depth of what is read behind them. -/
theorem depthAfter?_append (depth : Nat) (lines more : List Text) :
    depthAfter? rules depth (lines ++ more) =
      (depthAfter? rules depth lines).bind fun depth => depthAfter? rules depth more := by
  induction lines generalizing depth with
  | nil => rfl
  | cons line lines ih =>
    cases hstep : blockStep rules line with
    | leave => cases depth <;> simp [depthAfter?, hstep, ih]
    | _ => simp [depthAfter?, hstep, ih]

theorem depthAfter?_of_stay (h : ∀ line ∈ lines, blockStep rules line = .stay) (depth : Nat) :
    depthAfter? rules depth lines = some depth := by
  induction lines with
  | nil => rfl
  | cons line lines ih =>
    obtain ⟨hline, hlines⟩ := List.forall_mem_cons.1 h
    rw [depthAfter?_stay hline, ih hlines]

/-- Lines that neither open nor close a block may go, and the others may be changed as long as they
open and close the same. -/
theorem depthAfter?_map_filter {keep : Nat × Text → Bool} {g : Nat × Text → Text}
    {ps : List (Nat × Text)}
    (hkept : ∀ p ∈ ps, keep p = true → blockStep rules (g p) = blockStep rules p.2)
    (hgone : ∀ p ∈ ps, keep p = false → blockStep rules p.2 = .stay) (depth : Nat) :
    depthAfter? rules depth ((ps.filter keep).map g) =
      depthAfter? rules depth (ps.map Prod.snd) := by
  induction ps generalizing depth with
  | nil => rfl
  | cons p ps ih =>
    obtain ⟨hkept, hkepts⟩ := List.forall_mem_cons.1 hkept
    obtain ⟨hgone, hgones⟩ := List.forall_mem_cons.1 hgone
    cases hp : keep p with
    | true =>
      rw [List.filter_cons_of_pos hp, List.map_cons, List.map_cons]
      exact depthAfter?_congr (hkept hp) (ih hkepts hgones) depth
    | false =>
      rw [List.filter_cons_of_neg (by simp [hp]), List.map_cons, depthAfter?_stay (hgone hp)]
      exact ih hkepts hgones depth

/-- A whole block leaves the depth as it is. -/
theorem depthAfter?_block (hline : blockStep rules line = .enter)
    (hinner : ∀ line ∈ lines, blockStep rules line = .stay)
    (hcloser : blockStep rules closer = .leave) (depth : Nat) :
    depthAfter? rules depth (line :: lines ++ [closer]) = some depth := by
  rw [List.cons_append, depthAfter?_enter hline, depthAfter?_append, depthAfter?_of_stay hinner,
    Option.bind_some, depthAfter?_leave hcloser]
  rfl

/-- Lines that leave the depth as it is may stand anywhere. -/
theorem depthAfter?_insert (h : ∀ depth, depthAfter? rules depth lines = some depth)
    (before after : List Text) (depth : Nat) :
    depthAfter? rules depth (before ++ lines ++ after) =
      depthAfter? rules depth (before ++ after) := by
  simp only [depthAfter?_append, Option.bind_assoc, h, Option.bind_some]

/-- Where some of the open blocks are not known, no more are known to be open than are open. -/
theorem length_openersAfter_le {depth depth' : Nat} (h : depthAfter? rules depth lines = some depth')
    (hle : openers.length ≤ depth) : (openersAfter rules index openers lines).length ≤ depth' := by
  induction lines generalizing index openers depth with
  | nil => exact Option.some.inj h ▸ hle
  | cons line lines ih =>
    rw [openersAfter]
    cases hstep : blockStep rules line with
    | stay => exact ih (depthAfter?_stay hstep depth lines ▸ h) hle
    | enter => exact ih (depthAfter?_enter hstep depth lines ▸ h) (Nat.succ_le_succ hle)
    | leave =>
      cases depth with
      | zero => simp [depthAfter?, hstep] at h
      | succ depth =>
        refine ih (depthAfter?_leave hstep depth lines ▸ h) ?_
        cases openers with
        | nil => exact Nat.zero_le _
        | cons opener outer => exact Nat.le_of_succ_le_succ hle

/-! ## Lines below lines -/

section Below

variable {below below' : Nat × Text → List Text} {ps qs : List (Nat × Text)}

/-- The lines, each with the further lines that stand right below it. -/
def withBelow (below : Nat × Text → List Text) (ps : List (Nat × Text)) : List Text :=
  ps.flatMap fun p => p.2 :: below p

theorem withBelow_append (below : Nat × Text → List Text) (ps qs : List (Nat × Text)) :
    withBelow below (ps ++ qs) = withBelow below ps ++ withBelow below qs :=
  List.flatMap_append

theorem withBelow_cons (below : Nat × Text → List Text) (p : Nat × Text) (ps : List (Nat × Text)) :
    withBelow below (p :: ps) = p.2 :: below p ++ withBelow below ps :=
  List.flatMap_cons

theorem withBelow_congr (h : ∀ p ∈ ps, below p = below' p) :
    withBelow below ps = withBelow below' ps :=
  List.flatMap_congr fun p hp => by rw [h p hp]

theorem withBelow_of_nil (h : ∀ p ∈ ps, below p = []) : withBelow below ps = ps.map Prod.snd := by
  rw [withBelow_congr h, withBelow, List.map_eq_flatMap]

theorem sublist_withBelow (below : Nat × Text → List Text) (ps : List (Nat × Text)) :
    (ps.map Prod.snd).Sublist (withBelow below ps) := by
  induction ps with
  | nil => exact .slnil
  | cons p ps ih =>
    rw [withBelow_cons, List.map_cons, List.cons_append]
    exact (ih.trans (List.sublist_append_right ..)).cons_cons p.2

/-- What the lines say is what the old ones said, and below each what the further lines say. -/
theorem map_withBelow {α : Type} (f : Text → α) (below : Nat × Text → List Text)
    (ps : List (Nat × Text)) :
    (withBelow below ps).map f = ps.flatMap fun p => f p.2 :: (below p).map f := by
  rw [withBelow, List.map_flatMap]
  rfl

/-- Lines that neither open nor close a block leave the depth as it is. -/
theorem depthAfter?_withBelow
    (h : ∀ p ∈ ps, ∀ text ∈ below p, blockStep rules text = .stay) (depth : Nat) :
    depthAfter? rules depth (withBelow below ps) = depthAfter? rules depth (ps.map Prod.snd) := by
  induction ps generalizing depth with
  | nil => rfl
  | cons p ps ih =>
    obtain ⟨hp, hps⟩ := List.forall_mem_cons.1 h
    rw [withBelow_cons, List.cons_append, List.map_cons]
    refine depthAfter?_congr rfl (fun depth => ?_) depth
    rw [depthAfter?_append, depthAfter?_of_stay hp, Option.bind_some, ih hps]

end Below

end DiagramEditor.Source
