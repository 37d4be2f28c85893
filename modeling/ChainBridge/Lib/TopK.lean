import Mathlib.Order.Defs.LinearOrder
import Mathlib.Order.Compare
import Mathlib.Data.List.Basic

/-!
# Stable sorting by a comparator, and the first elements of it

A comparator sorts a list as a total order would where it is a total order on the elements of the list (`TotalOn`); elsewhere
it may be anything. The sort is stable: what the comparator finds equal stays in the order it was in (`pairwise_sortBy`). The
first `n` of a list in strict order are those with fewer than `n` elements before them (`mem_take_iff_countP`).

`WithNaN` is a linear order with one more value, which compares with nothing.
-/

namespace TopK

/-- An element of a linear order, or the value that compares with nothing. -/
inductive WithNaN (σ : Type) where
  | nan
  | num (x : σ)

namespace WithNaN

variable {σ : Type} [LinearOrder σ]

/-- The comparison, where there is one. -/
def partialCmp : WithNaN σ → WithNaN σ → Option Ordering
  | .num x, .num y => some (compare x y)
  | _, _ => none

/-- `>=`: false where there is no comparison. -/
def ge (a b : WithNaN σ) : Bool := (partialCmp a b).any Ordering.isGE

/-- `==`: false where there is no comparison. -/
def eq (a b : WithNaN σ) : Bool := partialCmp a b == some .eq

/-- Only numbers are `>=` anything. -/
theorem exists_num_of_ge {a b : WithNaN σ} (h : ge a b = true) : ∃ x, a = .num x := by
  cases a with
  | nan => simp [ge, partialCmp] at h
  | num x => exact ⟨x, rfl⟩

theorem partialCmp_swap (a b : WithNaN σ) : partialCmp b a = (partialCmp a b).map Ordering.swap := by
  cases a with
  | nan => cases b <;> rfl
  | num x =>
    cases b with
    | nan => rfl
    | num y =>
      rcases lt_trichotomy x y with h | h | h
      · simp [partialCmp, compare_lt_iff_lt.mpr h, compare_gt_iff_gt.mpr h]
      · subst h
        simp [partialCmp]
      · simp [partialCmp, compare_lt_iff_lt.mpr h, compare_gt_iff_gt.mpr h]

theorem ge_of_partialCmp {a b : WithNaN σ} (h : partialCmp b a = some .lt ∨ partialCmp b a = some .eq) : ge a b = true := by
  rw [ge, partialCmp_swap b a]
  rcases h with h | h
  · simp [h]
  · simp [h]

end WithNaN

variable {α β : Type}

/-- A stable sort by a comparator. -/
def sortBy (cmp : α → α → Ordering) (l : List α) : List α := l.mergeSort fun a b => cmp a b != .gt

/-- The comparator is a total order on the elements of the list, up to what it finds equal. -/
structure TotalOn (cmp : α → α → Ordering) (l : List α) : Prop where
  swap : ∀ a ∈ l, ∀ b ∈ l, cmp b a = (cmp a b).swap
  trans : ∀ a ∈ l, ∀ b ∈ l, ∀ c ∈ l, cmp a b ≠ .gt → cmp b c ≠ .gt → cmp a c ≠ .gt

theorem perm_sortBy (cmp : α → α → Ordering) (l : List α) : (sortBy cmp l).Perm l := List.mergeSort_perm l _

/-- The sort of an image is the image of the sort. -/
theorem sortBy_map (cmp : β → β → Ordering) (f : α → β) (l : List α) :
    sortBy cmp (l.map f) = (sortBy (fun a b => cmp (f a) (f b)) l).map f :=
  (List.map_mergeSort (f := f) (s := fun a b => cmp a b != .gt) fun _ _ _ _ => rfl).symm

namespace TotalOn

variable {cmp : α → α → Ordering}

/-- A comparator that is a total order on all elements sorts, and keeps equal elements in any order `R` the list was in. -/
theorem pairwise_of_univ {l : List α} {R : α → α → Prop} (hswap : ∀ a b, cmp b a = (cmp a b).swap)
    (htrans : ∀ a b c, cmp a b ≠ .gt → cmp b c ≠ .gt → cmp a c ≠ .gt) (hR : l.Pairwise R) :
    (sortBy cmp l).Pairwise fun a b => cmp a b = .lt ∨ (cmp a b = .eq ∧ R a b) := by
  have hle_trans : ∀ a b c, (cmp a b != .gt) = true → (cmp b c != .gt) = true → (cmp a c != .gt) = true := by
    intro a b c hab hbc
    exact bne_iff_ne.mpr (htrans a b c (bne_iff_ne.mp hab) (bne_iff_ne.mp hbc))
  have hle_total : ∀ a b, ((cmp a b != .gt) || (cmp b a != .gt)) = true := by
    intro a b
    rw [hswap a b]
    cases cmp a b <;> rfl
  -- the positions tell equal elements apart
  rw [sortBy, ← List.mergeSort_zipIdx, List.pairwise_map]
  have hsorted := List.pairwise_mergeSort (List.zipIdxLE_trans hle_trans) (List.zipIdxLE_total hle_total) l.zipIdx
  have hperm := List.mergeSort_perm l.zipIdx (List.zipIdxLE fun a b => cmp a b != .gt)
  have hpositions : ((l.zipIdx.mergeSort (List.zipIdxLE fun a b => cmp a b != .gt)).map Prod.snd).Nodup := by
    rw [(hperm.map Prod.snd).nodup_iff, List.zipIdx_map_snd]
    exact List.nodup_range'
  refine (hsorted.and (List.pairwise_map.mp hpositions)).imp_of_mem ?_
  rintro ⟨a, i⟩ ⟨b, j⟩ ha hb ⟨hle, hne⟩
  obtain ⟨hi, ha⟩ := List.mem_zipIdx' (hperm.mem_iff.mp ha)
  obtain ⟨hj, hb⟩ := List.mem_zipIdx' (hperm.mem_iff.mp hb)
  simp only [List.zipIdxLE] at hle hne
  have hswapped := hswap a b
  show cmp a b = .lt ∨ (cmp a b = .eq ∧ R a b)
  cases hcmp : cmp a b with
  | lt => exact Or.inl rfl
  | gt => simp [hcmp] at hle
  | eq =>
    refine Or.inr ⟨rfl, ?_⟩
    rw [hcmp] at hswapped
    have hij : i ≤ j := by simpa [hcmp, hswapped] using hle
    rw [ha, hb]
    exact List.pairwise_iff_getElem.mp hR i j hi hj (by omega)

/-- The list is sorted where the comparator is a total order on its elements, and equal elements stay in any order `R` they
were in. -/
theorem pairwise_sortBy {l : List α} {R : α → α → Prop} (h : TotalOn cmp l) (hR : l.Pairwise R) :
    (sortBy cmp l).Pairwise fun a b => cmp a b = .lt ∨ (cmp a b = .eq ∧ R a b) := by
  have hval : l.attach.map Subtype.val = l := List.attach_map_subtype_val l
  rw [← hval, sortBy_map, List.pairwise_map]
  refine pairwise_of_univ (fun a b => h.swap a.1 a.2 b.1 b.2) (fun a b c => h.trans a.1 a.2 b.1 b.2 c.1 c.2) ?_
  exact List.pairwise_map.mp (hval.symm ▸ hR)

end TotalOn

/-- Comparing keys downwards, and calling equal what does not compare, is a total order where the keys are numbers. -/
theorem totalOn_of_num {σ : Type} [LinearOrder σ] {key : α → WithNaN σ} {l : List α} (h : ∀ a ∈ l, ∃ x, key a = .num x) :
    TotalOn (fun a b => ((key b).partialCmp (key a)).getD .eq) l := by
  refine ⟨?_, ?_⟩
  · intro a ha b hb
    rw [WithNaN.partialCmp_swap (key b) (key a)]
    cases (key b).partialCmp (key a) <;> rfl
  · intro a ha b hb c hc
    obtain ⟨x, hx⟩ := h a ha
    obtain ⟨y, hy⟩ := h b hb
    obtain ⟨z, hz⟩ := h c hc
    simp only [hx, hy, hz, WithNaN.partialCmp, Option.getD_some, ne_eq, compare_gt_iff_gt, not_lt]
    exact fun hxy hyz => le_trans hyz hxy

/-- The first `n` elements of a list in strict order are those with fewer than `n` elements before them. -/
theorem mem_take_iff_countP {R : α → α → Prop} [DecidableRel R] (hasymm : ∀ a b, R a b → ¬ R b a) {l : List α}
    (h : l.Pairwise R) (n : Nat) (x : α) : x ∈ l.take n ↔ x ∈ l ∧ l.countP (fun a => R a x) < n := by
  induction l generalizing n with
  | nil => simp
  | cons a l ih =>
    obtain ⟨ha, hl⟩ := List.pairwise_cons.mp h
    have hirrefl : ¬ R a a := fun hr => hasymm a a hr hr
    cases n with
    | zero => simp
    | succ n =>
      rw [List.take_succ_cons, List.mem_cons, List.mem_cons, ih hl n]
      by_cases hx : x = a
      · subst hx
        have hnone : l.countP (fun b => decide (R b x)) = 0 := by
          refine List.countP_eq_zero.mpr fun b hb => ?_
          simpa using hasymm x b (ha b hb)
        simp [hirrefl, hnone]
      · simp only [hx, false_or]
        refine and_congr_right fun hmem => ?_
        rw [List.countP_cons_of_pos (by simpa using ha x hmem)]
        omega

end TopK
