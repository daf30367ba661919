import DiagramEditor.Proofs.Identifier.Fresh
import Mathlib.Data.Finset.Image
import Mathlib.Order.Bounds.Defs
import Mathlib.Order.Interval.Finset.Nat

/-!
# Names are given once

The search for a free name has no bound of its own (`Fresh.Ends`): it goes on while the name is taken, and at
the last serial number it would try the same name for ever. It ends where there is room (`Fresh.HasRoom`),
that is, where fewer candidates are taken than there are serial numbers left. The candidates are distinct, so
one of them is free then, and the search ends at the first one (`Fresh.isFirstFree_of_hasRoom`).

An allocator keeps the number of the last name of each family and goes on behind it. Whatever is taken at the
time of each request, a run of requests for which there is room gets names that are free and that all differ
(`IdAllocator.nodup_names`).
-/

namespace DiagramEditor

namespace Fresh

variable {name : Nat → Text} {taken : List Text} {c k m n : Nat}

/-! ## The search -/

/-- The search that stands at the number `n` ends at `m`: it goes on to the next number as long as the name
is taken. -/
inductive Ends (name : Nat → Text) (taken : List Text) : (n m : Nat) → Prop where
  | free {n : Nat} (hfree : name n ∉ taken) : Ends name taken n n
  | goOn {n m : Nat} (htaken : name n ∈ taken) (hnext : Ends name taken (next n) m) : Ends name taken n m

theorem Ends.unique (h : Ends name taken n m) (h' : Ends name taken n k) : k = m := by
  induction h with
  | free hfree =>
    cases h' with
    | free => rfl
    | goOn htaken => exact absurd htaken hfree
  | goOn htaken _ ih =>
    cases h' with
    | free hfree => exact absurd htaken hfree
    | goOn _ hnext => exact ih hnext

/-- The search ends at a free name if the names that it comes to before are taken. -/
theorem ends_of_forall (hle : n ≤ m) (hlast : m ≤ lastSerial)
    (hpassed : ∀ k, n ≤ k → k < m → name k ∈ taken) (hfree : name m ∉ taken) : Ends name taken n m := by
  induction hd : m - n generalizing n with
  | zero =>
    obtain rfl : m = n := by omega
    exact .free hfree
  | succ d ih =>
    have hnext : next n = n + 1 := by
      rw [next]
      omega
    refine .goOn (hpassed n (Nat.le_refl n) (by omega)) ?_
    rw [hnext]
    exact ih (by omega) (fun k hk => hpassed k (by omega)) (by omega)

/-! ## Room -/

/-- The names with the numbers behind `c`. -/
def candidates (name : Nat → Text) (c : Nat) : Finset Text :=
  (Finset.Ioc c lastSerial).image name

/-- Fewer candidates are taken than there are serial numbers behind `c`. -/
def HasRoom (name : Nat → Text) (taken : List Text) (c : Nat) : Prop :=
  (taken.toFinset ∩ candidates name c).card < lastSerial - c

theorem hasRoom_of_length_lt (h : taken.length < lastSerial - c) : HasRoom name taken c :=
  calc (taken.toFinset ∩ candidates name c).card
      ≤ taken.toFinset.card := Finset.card_le_card Finset.inter_subset_left
    _ ≤ taken.length := List.toFinset_card_le taken
    _ < lastSerial - c := h

/-- Where there is room one of the candidates is free. -/
theorem HasRoom.exists_notMem (hname : Function.Injective name) (h : HasRoom name taken c) :
    ∃ n, c < n ∧ n ≤ lastSerial ∧ name n ∉ taken := by
  by_contra hnone
  have hall : candidates name c ⊆ taken.toFinset := by
    intro t ht
    obtain ⟨n, hn, rfl⟩ := Finset.mem_image.1 ht
    obtain ⟨hlt, hle⟩ := Finset.mem_Ioc.1 hn
    exact List.mem_toFinset.2 (by_contra fun hfree => hnone ⟨n, hlt, hle, hfree⟩)
  -- The candidates are distinct, so there are as many of them as serial numbers behind `c`.
  have hcard : (candidates name c).card = lastSerial - c := by
    rw [candidates, Finset.card_image_of_injective _ hname, Nat.card_Ioc]
  rw [HasRoom, Finset.inter_eq_right.2 hall, hcard] at h
  exact Nat.lt_irrefl _ h

/-- The first number behind `c` with a free name. -/
structure IsFirstFree (name : Nat → Text) (taken : List Text) (c n : Nat) : Prop where
  least : IsLeast {k | c < k ∧ name k ∉ taken} n
  le_last : n ≤ lastSerial
  /-- The search that begins behind `c` ends, and it ends there. -/
  ends : ∀ m, Ends name taken (next c) m ↔ m = n

theorem isFirstFree_of_hasRoom (hname : Function.Injective name) (h : HasRoom name taken c) :
    IsFirstFree name taken c (firstFree name taken (next c)) := by
  obtain ⟨k, hk, hlast, hfree⟩ := h.exists_notMem hname
  have hnext : next c = c + 1 := by
    rw [next]
    omega
  have hstart : next c ≤ lastSerial := Nat.min_le_right ..
  have hnotMem : name (firstFree name taken (next c)) ∉ taken :=
    firstFree_notMem_of_exists hname hstart ⟨k, by omega, hlast, hfree⟩
  have hge := min_le_firstFreeIn name taken taken.length (next c)
  rw [Nat.min_eq_left hstart] at hge
  have hle : firstFree name taken (next c) ≤ lastSerial := firstFreeIn_le_lastSerial hstart
  refine ⟨⟨⟨?_, hnotMem⟩, ?_⟩, hle, fun m => ⟨?_, ?_⟩⟩
  · rw [firstFree]
    omega
  · rintro j ⟨hj, hfree⟩
    exact Nat.le_of_not_lt fun hlt => hfree (mem_of_lt_firstFreeIn hstart (by omega) hlt)
  · exact (ends_of_forall hge hle (fun j => mem_of_lt_firstFreeIn hstart) hnotMem).unique
  · rintro rfl
    exact ends_of_forall hge hle (fun j => mem_of_lt_firstFreeIn hstart) hnotMem

end Fresh

/-! ## Allocators -/

namespace IdAllocator

open Fresh

/-- What an allocator gives names to. -/
inductive Family where
  | node
  | subgraph
  | entity
deriving DecidableEq, Repr

/-- What the names of the family begin with. -/
def Family.stem : Family → Text
  | node => nodeStem
  | subgraph => subgraphStem
  | entity => entityStem

/-- The name of the family with this number. -/
def Family.name (f : Family) (n : Nat) : Text :=
  numberedName f.stem n

/-- The last number given to the family. -/
def counter (ids : IdAllocator) : Family → Nat
  | .node => ids.nodes
  | .subgraph => ids.subgraphs
  | .entity => ids.entities

/-- A free name of the family. -/
def fresh (f : Family) (taken : List Text) (ids : IdAllocator) : Text × IdAllocator :=
  match f with
  | .node => ids.freshNode taken
  | .subgraph => ids.freshSubgraph taken
  | .entity => ids.freshEntity taken

variable {f g : Family} {taken : List Text} {ids : IdAllocator} {m n : Nat}

theorem Family.name_injective (f : Family) : Function.Injective f.name :=
  numberedName_injective f.stem

/-- The first letter of a name tells its family. -/
theorem Family.eq_of_name_eq (h : f.name m = g.name n) : f = g := by
  have hhead : f.stem.head? = g.stem.head? := by
    have h := congrArg List.head? h
    have hstem : ∀ (f : Family) (n : Nat), (f.name n).head? = f.stem.head? := fun f n => by
      cases f <;> rfl
    rwa [hstem, hstem] at h
  revert hhead
  cases f <;> cases g <;> decide

/-- The name that is given has the number that is kept. -/
theorem fst_fresh (f : Family) (taken : List Text) (ids : IdAllocator) :
    (ids.fresh f taken).1 = f.name ((ids.fresh f taken).2.counter f) := by
  cases f <;> rfl

theorem counter_fresh_self (f : Family) (taken : List Text) (ids : IdAllocator) :
    (ids.fresh f taken).2.counter f = firstFree f.name taken (next (ids.counter f)) := by
  cases f <;> rfl

theorem counter_fresh_of_ne (h : g ≠ f) (taken : List Text) (ids : IdAllocator) :
    (ids.fresh f taken).2.counter g = ids.counter g := by
  cases f <;> cases g <;> first | rfl | exact absurd rfl h

theorem isFirstFree_fresh (h : HasRoom f.name taken (ids.counter f)) :
    IsFirstFree f.name taken (ids.counter f) ((ids.fresh f taken).2.counter f) := by
  rw [counter_fresh_self]
  exact isFirstFree_of_hasRoom f.name_injective h

/-- An allocator goes on behind the numbers that it has given. -/
theorem counter_le_fresh (h : HasRoom f.name taken (ids.counter f)) (g : Family) :
    ids.counter g ≤ (ids.fresh f taken).2.counter g := by
  by_cases hg : g = f
  · subst hg
    exact Nat.le_of_lt (isFirstFree_fresh h).least.1.1
  · exact Nat.le_of_eq (counter_fresh_of_ne hg taken ids).symm

/-! ## Runs of requests -/

/-- A request for a name, with the names that are taken at the time. -/
structure Request where
  family : Family
  taken : List Text

/-- The requests with the names that they get, one after the other. -/
def serve (ids : IdAllocator) : List Request → List (Request × Text)
  | [] => []
  | r :: rs => (r, (ids.fresh r.family r.taken).1) :: serve (ids.fresh r.family r.taken).2 rs

/-- There is room for each request when it comes. -/
def HasRoomFor (ids : IdAllocator) : List Request → Prop
  | [] => True
  | r :: rs => HasRoom r.family.name r.taken (ids.counter r.family) ∧
    HasRoomFor (ids.fresh r.family r.taken).2 rs

variable {rs : List Request}

/-- A name has a number behind the one that the allocator had, and it is free when it is given. -/
theorem exists_of_mem_serve (h : ids.HasRoomFor rs) : ∀ p ∈ ids.serve rs,
    p.2 ∉ p.1.taken ∧ ∃ n, p.2 = p.1.family.name n ∧ ids.counter p.1.family < n := by
  induction rs generalizing ids with
  | nil => exact List.forall_mem_nil _
  | cons r rs ih =>
    obtain ⟨hroom, hrest⟩ := h
    have hfirst := (isFirstFree_fresh hroom).least.1
    refine List.forall_mem_cons.2 ⟨⟨?_, _, fst_fresh .., hfirst.1⟩, fun p hp => ?_⟩
    · rw [fst_fresh]
      exact hfirst.2
    · obtain ⟨hfree, n, hn, hlt⟩ := ih hrest p hp
      exact ⟨hfree, n, hn, Nat.lt_of_le_of_lt (counter_le_fresh hroom _) hlt⟩

/-- No name is given twice. -/
theorem nodup_names (h : ids.HasRoomFor rs) : ((ids.serve rs).map Prod.snd).Nodup := by
  induction rs generalizing ids with
  | nil => exact List.nodup_nil
  | cons r rs ih =>
    obtain ⟨-, hrest⟩ := h
    refine List.nodup_cons.2 ⟨fun hmem => ?_, ih hrest⟩
    obtain ⟨p, hp, heq⟩ := List.mem_map.1 hmem
    obtain ⟨-, n, hn, hlt⟩ := exists_of_mem_serve hrest p hp
    rw [hn, fst_fresh] at heq
    -- The later name would have the number that the allocator has kept.
    have hfamily := Family.eq_of_name_eq heq
    rw [hfamily] at heq hlt
    rw [r.family.name_injective heq] at hlt
    exact Nat.lt_irrefl _ hlt

/-- Where there is room a name gets the first free number behind the last one of its family, and that
number is kept; in a run no name is given twice and none that is taken at the time; and names that are
numbered from one on get the first free number. -/
theorem names_firstFree :
    (∀ (ids : IdAllocator) (f : Family) (taken : List Text), HasRoom f.name taken (ids.counter f) →
      ∃ n, IsFirstFree f.name taken (ids.counter f) n ∧ (ids.fresh f taken).1 = f.name n ∧
        (ids.fresh f taken).2.counter f = n ∧
          ∀ g ≠ f, (ids.fresh f taken).2.counter g = ids.counter g) ∧
    (∀ (ids : IdAllocator) (rs : List Request), ids.HasRoomFor rs →
      ((ids.serve rs).map Prod.snd).Nodup ∧ ∀ p ∈ ids.serve rs, p.2 ∉ p.1.taken) ∧
    (∀ (stem : Text) (taken : List Text), HasRoom (numberedName stem) taken 0 →
      ∃ n, IsFirstFree (numberedName stem) taken 0 n ∧ numbered stem taken = numberedName stem n) ∧
    ∀ (base : Text) (taken : List Text), HasRoom (suffixedName base) taken 0 →
      ∃ n, IsFirstFree (suffixedName base) taken 0 n ∧ suffixed base taken = suffixedName base n := by
  refine ⟨fun ids f taken h => ?_, fun ids rs h => ?_, fun stem taken h => ?_, fun base taken h => ?_⟩
  · exact ⟨_, isFirstFree_fresh h, fst_fresh .., rfl, fun g hg => counter_fresh_of_ne hg taken ids⟩
  · exact ⟨nodup_names h, fun p hp => (exists_of_mem_serve h p hp).1⟩
  · exact ⟨_, isFirstFree_of_hasRoom (numberedName_injective stem) h, rfl⟩
  · exact ⟨_, isFirstFree_of_hasRoom (suffixedName_injective base) h, rfl⟩

/-- Between two requests for a node the names that are taken change, and other families are served. -/
theorem names_firstFree_changing :
    let taken := ["N1".toList, "N3".toList]
    let rs : List Request := [⟨.node, taken⟩, ⟨.subgraph, ["N2".toList]⟩, ⟨.node, ["N4".toList]⟩,
      ⟨.entity, ["ENTITY1".toList]⟩, ⟨.node, []⟩]
    let ids : IdAllocator := {}
    (HasRoom (Family.name .node) taken (ids.counter .node) ∧
      ∃ n, IsFirstFree (Family.name .node) taken (ids.counter .node) n ∧
        (ids.fresh .node taken).1 = Family.name .node n ∧ (ids.fresh .node taken).2.counter .node = n ∧
          ∀ g ≠ .node, (ids.fresh .node taken).2.counter g = ids.counter g) ∧
    (ids.HasRoomFor rs ∧ (ids.serve rs).map Prod.snd =
        ["N2".toList, "subGraph1".toList, "N3".toList, "ENTITY2".toList, "N4".toList] ∧
      ((ids.serve rs).map Prod.snd).Nodup ∧ ∀ p ∈ ids.serve rs, p.2 ∉ p.1.taken) ∧
    (HasRoom (numberedName ['p']) [['p', '1']] 0 ∧ ∃ n, IsFirstFree (numberedName ['p']) [['p', '1']] 0 n ∧
      numbered ['p'] [['p', '1']] = numberedName ['p'] n) ∧
    HasRoom (suffixedName ['A']) ["A_1".toList] 0 ∧ ∃ n, IsFirstFree (suffixedName ['A']) ["A_1".toList] 0 n ∧
      suffixed ['A'] ["A_1".toList] = suffixedName ['A'] n := by
  have hroom : ∀ {name : Nat → Text} {taken : List Text} {c : Nat}, taken.length < 3 → c < 10 →
      HasRoom name taken c := fun htaken hc => hasRoom_of_length_lt (by rw [lastSerial]; omega)
  have hrun : HasRoomFor {} [⟨.node, ["N1".toList, "N3".toList]⟩, ⟨.subgraph, ["N2".toList]⟩,
      ⟨.node, ["N4".toList]⟩, ⟨.entity, ["ENTITY1".toList]⟩, ⟨.node, []⟩] :=
    ⟨hroom (by decide) (by decide), hroom (by decide) (by decide +kernel),
      hroom (by decide) (by decide +kernel), hroom (by decide) (by decide +kernel),
      hroom (by decide) (by decide +kernel), trivial⟩
  obtain ⟨hgiven, hserved, hnumbered, hsuffixed⟩ := names_firstFree
  exact ⟨⟨hrun.1, hgiven _ _ _ hrun.1⟩, ⟨hrun, by decide +kernel, hserved _ _ hrun⟩,
    ⟨hroom (by decide) (by decide), hnumbered _ _ (hroom (by decide) (by decide))⟩,
    hroom (by decide) (by decide), hsuffixed _ _ (hroom (by decide) (by decide))⟩

end IdAllocator

end DiagramEditor
