import Mathlib.Data.List.Nodup
import Mathlib.Data.List.Count

/-!
# Records found by their keys

Records are kept in a list and looked up by a key: the first record with the key is found. The first with the key of the record
at a position is at `firstOf`. Looking up the keys of records finds these records, each once and no others, exactly if each of
them is the first with its key (`count_firstOf_iff`).
-/

namespace FirstMatch

variable {α κ : Type} [DecidableEq κ]

/-- The position of the first record with a key. -/
def first (key : α → κ) (l : List α) (k : κ) : Nat := l.findIdx fun a => key a == k

/-- The position of the first record with the key of the one at a position. -/
def firstOf (key : α → κ) (l : List α) (i : Nat) : Nat := l[i]?.elim l.length fun a => first key l (key a)

variable {key : α → κ} {l : List α}

theorem firstOf_of_getElem? {i : Nat} {a : α} (h : l[i]? = some a) : firstOf key l i = first key l (key a) := by
  rw [firstOf, h]
  rfl

theorem firstOf_eq_length {i : Nat} (h : l.length ≤ i) : firstOf key l i = l.length := by
  rw [firstOf, List.getElem?_eq_none h]
  rfl

/-- The first record with the key of a record is not behind it, and has its key. -/
theorem first_spec (key : α → κ) {i : Nat} {a : α} (h : l[i]? = some a) :
    first key l (key a) ≤ i ∧ ∃ b, l[first key l (key a)]? = some b ∧ key b = key a := by
  obtain ⟨hi, rfl⟩ := List.getElem?_eq_some_iff.mp h
  have hex : ∃ x ∈ l, (key x == key l[i]) = true := ⟨l[i], List.getElem_mem hi, beq_self_eq_true _⟩
  have hlt : first key l (key l[i]) < l.length := List.findIdx_lt_length_of_exists hex
  refine ⟨Nat.le_of_not_lt fun hbehind => ?_, l[first key l (key l[i])], List.getElem?_eq_getElem hlt, ?_⟩
  · exact absurd (beq_self_eq_true (key l[i])) (by simpa using List.not_of_lt_findIdx hbehind)
  · exact eq_of_beq (List.findIdx_getElem (w := hlt))

/-- A record is the first with its key exactly if none before it has the key. -/
theorem firstOf_eq_self_iff {i : Nat} {a : α} (h : l[i]? = some a) :
    firstOf key l i = i ↔ ∀ j < i, ∀ b, l[j]? = some b → key b ≠ key a := by
  rw [firstOf_of_getElem? h]
  constructor
  · intro hfirst j hj b hb hkey
    have hle := (first_spec key hb).1
    rw [hkey, hfirst] at hle
    omega
  · intro hnone
    obtain ⟨hle, b, hb, hkey⟩ := first_spec key h
    rcases Nat.lt_or_eq_of_le hle with hlt | heq
    · exact absurd hkey (hnone _ hlt b hb)
    · exact heq

theorem firstOf_le (key : α → κ) {i : Nat} (h : i < l.length) : firstOf key l i ≤ i := by
  have hget := List.getElem?_eq_getElem h
  rw [firstOf_of_getElem? hget]
  exact (first_spec key hget).1

theorem firstOf_firstOf (i : Nat) : firstOf key l (firstOf key l i) = firstOf key l i := by
  by_cases h : i < l.length
  · have hget := List.getElem?_eq_getElem h
    obtain ⟨-, b, hb, hkey⟩ := first_spec key hget
    rw [firstOf_of_getElem? hget, firstOf_of_getElem? hb, hkey]
  · have hout : firstOf key l i = l.length := firstOf_eq_length (by omega)
    rw [hout, firstOf_eq_length (Nat.le_refl _)]

/-- Equal records have the same first record with their key. -/
theorem map_firstOf_congr (key : α → κ) {s s' : List Nat} (h : s.map (l[·]?) = s'.map (l[·]?)) :
    s.map (firstOf key l) = s'.map (firstOf key l) := by
  have hfactor : ∀ u : List Nat, u.map (firstOf key l) =
      (u.map (l[·]?)).map fun a => a.elim l.length fun a => first key l (key a) := by
    intro u
    rw [List.map_map]
    rfl
  rw [hfactor, hfactor, h]

/-- A map onto its own image that only permutes a list moves nothing in it. -/
theorem fixed_of_perm_map {f : Nat → Nat} {s : List Nat} (hf : ∀ i, f (f i) = f i) (h : (s.map f).Perm s) : ∀ i ∈ s, f i = i := by
  intro i hi
  obtain ⟨j, -, rfl⟩ := List.mem_map.mp (h.mem_iff.mpr hi)
  exact hf j

/-- Looking up the keys of records finds the records looked for, each once and no others, exactly if each is the first with its
key. Which records are looked for is told by the records, not by their positions; where one of two equal records is among them,
so is the earlier one. -/
theorem count_firstOf_iff {s : List Nat} (hnodup : s.Nodup) (hlt : ∀ i ∈ s, i < l.length)
    (hearlier : ∀ i ∈ s, ∀ j < i, l[j]? = l[i]? → j ∈ s) :
    (∃ s' : List Nat, s'.Nodup ∧ s'.map (l[·]?) = s.map (l[·]?) ∧ ∀ i, (s.map (firstOf key l)).count i = s'.count i) ↔
      ∀ i ∈ s, firstOf key l i = i := by
  constructor
  · rintro ⟨s', hnodup', hrecords, hcount⟩ i hi
    have hperm : (s.map (firstOf key l)).Perm s' := List.perm_iff_count.mpr hcount
    have hfixed : ∀ i ∈ s', firstOf key l i = i :=
      fixed_of_perm_map firstOf_firstOf (map_firstOf_congr key hrecords ▸ hperm)
    -- what is found are the positions that were meant
    have hmeant : s.map (firstOf key l) = s' := by
      rw [← map_firstOf_congr key hrecords, List.map_congr_left hfixed, List.map_id']
    have hsame : l[firstOf key l i]? = l[i]? := by
      rw [← hmeant, List.map_map] at hrecords
      exact List.map_inj_left.mp hrecords i hi
    rcases Nat.lt_or_eq_of_le (firstOf_le key (hlt i hi)) with hbefore | heq
    · have hmem : firstOf key l i ∈ s := hearlier i hi _ hbefore hsame
      exact List.inj_on_of_nodup_map (hmeant.symm ▸ hnodup') hmem hi (firstOf_firstOf i)
    · exact heq
  · intro hfixed
    refine ⟨s, hnodup, rfl, fun i => ?_⟩
    rw [List.map_congr_left hfixed, List.map_id']

end FirstMatch
