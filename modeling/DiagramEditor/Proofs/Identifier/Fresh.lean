import DiagramEditor.Identifier.Fresh
import DiagramEditor.Proofs.Text.Numeral
import Mathlib.Data.List.Nodup
import Mathlib.Data.List.Perm.Subperm

/-!
# Fresh identifiers are fresh

Counting stops at the first name that is not taken (`exists_firstFreeIn_eq`), and where it does not
reach the last serial number it stops there for this reason: the names passed over are distinct and
taken, so there are no more of them than there are taken names (`firstFree_notMem`). A suffix begins
with one, and hence a suffixed name is fresh if there are fewer taken names than serial numbers
(`suffixed_notMem`). An allocator goes on from where it stands, and only forward, so a name that it
gives is fresh if it has not come to the end of its numbers (`IdAllocator.freshSubgraph_notMem`).
-/

namespace DiagramEditor

open Text

namespace Fresh

variable {name : Nat → Text} {taken : List Text} {tries n : Nat}

theorem min_le_firstFreeIn (name : Nat → Text) (taken : List Text) (tries n : Nat) :
    min n lastSerial ≤ firstFreeIn name taken tries n := by
  induction tries generalizing n with
  | zero => exact Nat.min_le_left n lastSerial
  | succ tries ih =>
    rw [firstFreeIn]
    split
    · have hnext := ih (next n)
      rw [next] at hnext ⊢
      omega
    · exact Nat.min_le_left n lastSerial

theorem firstFreeIn_le (name : Nat → Text) (taken : List Text) (tries n : Nat) :
    firstFreeIn name taken tries n ≤ n + tries := by
  induction tries generalizing n with
  | zero => exact Nat.le_refl n
  | succ tries ih =>
    rw [firstFreeIn]
    split
    · have hnext := ih (next n)
      rw [next] at hnext ⊢
      omega
    · omega

/-- Counting passes over taken names only, and stops at one that is free unless it has run out of
tries. -/
theorem exists_firstFreeIn_eq (h : firstFreeIn name taken tries n < lastSerial) :
    ∃ k ≤ tries, firstFreeIn name taken tries n = n + k ∧ (∀ j < k, name (n + j) ∈ taken) ∧
      (k < tries → name (n + k) ∉ taken) := by
  induction tries generalizing n with
  | zero => exact ⟨0, Nat.le_refl 0, rfl, nofun, nofun⟩
  | succ tries ih =>
    rw [firstFreeIn] at h ⊢
    split at h
    · next htaken =>
      rw [if_pos htaken]
      -- The numbers are not used up, so the next one is the successor.
      have hnext : next n = n + 1 := by
        have hle := min_le_firstFreeIn name taken tries (next n)
        rw [next] at hle h ⊢
        omega
      rw [hnext] at h ⊢
      obtain ⟨k, hk, heq, hpassed, hfree⟩ := ih h
      refine ⟨k + 1, Nat.succ_le_succ hk, by omega, fun j hj => ?_, fun hlt => ?_⟩
      · cases j with
        | zero => simpa using htaken
        | succ j =>
          have := hpassed j (by omega)
          rwa [Nat.add_assoc, Nat.add_comm 1] at this
      · have := hfree (by omega)
        rwa [Nat.add_assoc, Nat.add_comm 1] at this
    · next hfree =>
      rw [if_neg hfree]
      exact ⟨0, Nat.zero_le _, rfl, nofun, fun _ => by simpa using hfree⟩

/-- The name with the first free number is free. -/
theorem firstFree_notMem (hname : Function.Injective name)
    (h : firstFree name taken n < lastSerial) : name (firstFree name taken n) ∉ taken := by
  obtain ⟨k, hk, heq, hpassed, hfree⟩ := exists_firstFreeIn_eq h
  rw [firstFree, heq]
  intro hmem
  obtain rfl : k = taken.length := by
    by_contra hne
    exact hfree (by omega) hmem
  -- One more name than there are taken ones.
  have hnodup : ((List.range (taken.length + 1)).map fun j => name (n + j)).Nodup :=
    List.Nodup.map (fun i j hij => Nat.add_left_cancel (hname hij)) List.nodup_range
  have hsubset : ((List.range (taken.length + 1)).map fun j => name (n + j)) ⊆ taken := by
    intro t ht
    obtain ⟨j, hj, rfl⟩ := List.mem_map.1 ht
    rcases Nat.lt_succ_iff_lt_or_eq.1 (List.mem_range.1 hj) with hlt | rfl
    exacts [hpassed j hlt, hmem]
  have hlength := (hnodup.subperm hsubset).length_le
  rw [List.length_map, List.length_range] at hlength
  omega

theorem firstFreeIn_le_lastSerial (hn : n ≤ lastSerial) :
    firstFreeIn name taken tries n ≤ lastSerial := by
  induction tries generalizing n with
  | zero => exact hn
  | succ tries ih =>
    rw [firstFreeIn]
    split
    exacts [ih (Nat.min_le_right ..), hn]

/-- Every number that is passed over makes a taken name, also when counting comes to its end. -/
theorem mem_of_lt_firstFreeIn (hn : n ≤ lastSerial) {k : Nat} (hk : n ≤ k)
    (hlt : k < firstFreeIn name taken tries n) : name k ∈ taken := by
  induction tries generalizing n with
  | zero => exact absurd hlt (Nat.not_lt.2 hk)
  | succ tries ih =>
    rw [firstFreeIn] at hlt
    split at hlt
    · next htaken =>
      rcases Nat.eq_or_lt_of_le hk with rfl | hk
      · simpa using htaken
      · exact ih (Nat.min_le_right ..) (Nat.le_trans (Nat.min_le_left ..) hk) hlt
    · exact absurd hlt (Nat.not_lt.2 hk)

/-- The name with the first free number is free if there is a free name at all. -/
theorem firstFree_notMem_of_exists (hname : Function.Injective name) (hn : n ≤ lastSerial)
    (h : ∃ k, n ≤ k ∧ k ≤ lastSerial ∧ name k ∉ taken) : name (firstFree name taken n) ∉ taken := by
  obtain ⟨k, hk, hlast, hfree⟩ := h
  have hle : firstFree name taken n ≤ k := Nat.le_of_not_lt fun hlt =>
    hfree (mem_of_lt_firstFreeIn hn hk hlt)
  rcases Nat.eq_or_lt_of_le hle with heq | hlt
  · rwa [heq]
  · exact firstFree_notMem hname (Nat.lt_of_lt_of_le hlt hlast)

theorem suffixedName_injective (base : Text) : Function.Injective (suffixedName base) := by
  intro i j hij
  have hdigits := List.append_cancel_left hij
  exact ofNat_injective (List.cons.inj hdigits).2

theorem numberedName_injective (stem : Text) : Function.Injective (numberedName stem) :=
  fun _ _ hij => ofNat_injective (List.append_cancel_left hij)

/-- A suffix makes a free name while there are more serial numbers than taken names. -/
theorem suffixed_notMem (h : taken.length + 1 < lastSerial) (base : Text) :
    suffixed base taken ∉ taken := by
  refine firstFree_notMem (suffixedName_injective base) ?_
  have hle := firstFreeIn_le (suffixedName base) taken taken.length 1
  rw [firstFree]
  omega

/-- A suffix makes a free name if some serial number does. -/
theorem exists_suffixed_eq {base : Text}
    (h : ∃ k, 1 ≤ k ∧ k ≤ lastSerial ∧ suffixedName base k ∉ taken) :
    ∃ k, 1 ≤ k ∧ k ≤ lastSerial ∧ suffixed base taken = suffixedName base k ∧
      suffixed base taken ∉ taken := by
  have hone : 1 ≤ lastSerial := by decide
  have hmin := min_le_firstFreeIn (suffixedName base) taken taken.length 1
  rw [Nat.min_eq_left hone] at hmin
  exact ⟨_, hmin, firstFreeIn_le_lastSerial hone, rfl,
    firstFree_notMem_of_exists (suffixedName_injective base) hone h⟩

/-- A number makes a free name while there are more serial numbers than taken names. -/
theorem numbered_notMem (h : taken.length + 1 < lastSerial) (stem : Text) :
    numbered stem taken ∉ taken := by
  refine firstFree_notMem (numberedName_injective stem) ?_
  have hle := firstFreeIn_le (numberedName stem) taken taken.length 1
  rw [firstFree]
  omega

end Fresh

namespace IdAllocator

variable {taken : List Text} {ids : IdAllocator}

/-- The name of a subgraph is free while the allocator has numbers left. -/
theorem freshSubgraph_notMem (h : (ids.freshSubgraph taken).2.subgraphs < Fresh.lastSerial) :
    (ids.freshSubgraph taken).1 ∉ taken :=
  Fresh.firstFree_notMem (Fresh.numberedName_injective subgraphStem) h

/-- An allocator only counts forward. -/
theorem min_le_freshSubgraph (taken : List Text) (ids : IdAllocator) :
    min ids.subgraphs Fresh.lastSerial ≤ (ids.freshSubgraph taken).2.subgraphs := by
  have hle := Fresh.min_le_firstFreeIn (Fresh.numberedName subgraphStem) taken taken.length
    (Fresh.next ids.subgraphs)
  rw [Fresh.next] at hle
  change _ ≤ Fresh.firstFreeIn _ _ _ (Fresh.next ids.subgraphs)
  rw [Fresh.next]
  omega

end IdAllocator

end DiagramEditor
