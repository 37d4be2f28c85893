import ChainBridge.AgentMemory

/-!
# Queries of the long-term memory

A query returns the best of the records that score enough: sorted by score, best first, records of the same score in the order
they were inserted, and cut at the limit. The records are told apart by their positions. What is sorted are numbers, so that
the comparator is a total order where it is used, although it calls equal what it cannot compare.
-/

namespace ChainBridge.AgentMemory

open TopK

variable {φ σ : Type} [LinearOrder σ]

namespace LongTermMemory

/-- The records that score enough, with their positions. -/
def matching (F : Floats φ σ) (score : MemoryEntry φ → φ) (lt : LongTermMemory φ) (minScore : φ) : List (MemoryEntry φ × Nat) :=
  lt.entries.zipIdx.filter fun record => (F.value (score record.1)).ge (F.value minScore)

/-- A record comes before another: its score is higher, or it is the same and the record was inserted earlier. -/
def RanksBefore (F : Floats φ σ) (score : MemoryEntry φ → φ) (a b : MemoryEntry φ × Nat) : Prop :=
  (F.value (score b.1)).partialCmp (F.value (score a.1)) = some .lt ∨
    ((F.value (score b.1)).partialCmp (F.value (score a.1)) = some .eq ∧ a.2 < b.2)

instance (F : Floats φ σ) (score : MemoryEntry φ → φ) : DecidableRel (RanksBefore F score) :=
  fun _ _ => inferInstanceAs (Decidable (_ ∨ _))

/-- A result is the stable top `limit` of the records that score enough. -/
structure StableTopK (F : Floats φ σ) (score : MemoryEntry φ → φ) (lt : LongTermMemory φ) (limit : Nat) (minScore : φ)
    (result : List (MemoryEntry φ × φ)) : Prop where
  /-- Whatever is compared compares. -/
  comparable : ∀ a ∈ lt.matching F score minScore, ∀ b ∈ lt.matching F score minScore,
    ((F.value (score b.1)).partialCmp (F.value (score a.1))).isSome = true
  /-- The comparator is a total order on what is sorted. -/
  total : TotalOn (byScore F) ((lt.matching F score minScore).map fun record => (record.1, score record.1))
  /-- The result is the beginning of the records in order, and what is left out scores no higher than what is returned. -/
  ranked : ∃ ranked : List (MemoryEntry φ × Nat), ranked.Perm (lt.matching F score minScore) ∧
    ranked.Pairwise (RanksBefore F score) ∧
    result = (ranked.take (min limit (lt.matching F score minScore).length)).map (fun record => (record.1, score record.1)) ∧
    ∀ returned ∈ ranked.take (min limit (lt.matching F score minScore).length),
      ∀ left ∈ ranked.drop (min limit (lt.matching F score minScore).length),
        (F.value (score returned.1)).ge (F.value (score left.1)) = true

namespace QueryAux

variable {F : Floats φ σ} {score : MemoryEntry φ → φ} {lt : LongTermMemory φ} {minScore : φ}

theorem exists_num_of_matching {a : MemoryEntry φ × Nat} (h : a ∈ lt.matching F score minScore) :
    ∃ x, F.value (score a.1) = .num x :=
  WithNaN.exists_num_of_ge (List.mem_filter.mp h).2

theorem filterMap_ite {α β : Type} (p : α → Bool) (f : α → β) (l : List α) :
    l.filterMap (fun a => if p a then some (f a) else none) = (l.filter p).map f := by
  induction l with
  | nil => rfl
  | cons a l ih =>
    by_cases h : p a = true
    · rw [List.filterMap_cons_some (b := f a) (by rw [if_pos h]), List.filter_cons_of_pos h, List.map_cons, ih]
    · rw [List.filterMap_cons_none (by rw [if_neg h]), List.filter_cons_of_neg h, ih]

/-- What the loop of `query` collects. -/
theorem collected_eq (F : Floats φ σ) (score : MemoryEntry φ → φ) (lt : LongTermMemory φ) (minScore : φ) :
    (lt.entries.filterMap fun entry =>
      if (F.value (score entry)).ge (F.value minScore) then some (entry, score entry) else none) =
      (lt.matching F score minScore).map fun record => (record.1, score record.1) := by
  rw [filterMap_ite, matching]
  conv => lhs; rw [← List.zipIdx_map_fst 0 lt.entries]
  rw [List.filter_map, List.map_map]
  rfl

theorem pairwise_matching (F : Floats φ σ) (score : MemoryEntry φ → φ) (lt : LongTermMemory φ) (minScore : φ) :
    (lt.matching F score minScore).Pairwise fun a b => a.2 < b.2 := by
  have hpositions : lt.entries.zipIdx.Pairwise fun a b => a.2 < b.2 := by
    rw [← List.pairwise_map (f := Prod.snd) (R := (· < ·)), List.zipIdx_map_snd]
    exact List.pairwise_lt_range'
  exact hpositions.sublist List.filter_sublist

/-- The records that score enough, in order. -/
def ranking (F : Floats φ σ) (score : MemoryEntry φ → φ) (lt : LongTermMemory φ) (minScore : φ) : List (MemoryEntry φ × Nat) :=
  sortBy (fun a b => byScore F (a.1, score a.1) (b.1, score b.1)) (lt.matching F score minScore)

theorem perm_ranking (F : Floats φ σ) (score : MemoryEntry φ → φ) (lt : LongTermMemory φ) (minScore : φ) :
    (ranking F score lt minScore).Perm (lt.matching F score minScore) := perm_sortBy _ _

theorem queryBy_eq_ranking (F : Floats φ σ) (score : MemoryEntry φ → φ) (lt : LongTermMemory φ) (limit : Nat) (minScore : φ) :
    lt.queryBy F score limit minScore =
      ((ranking F score lt minScore).take limit).map fun record => (record.1, score record.1) := by
  rw [queryBy, collected_eq, sortBy_map, List.map_take]
  rfl

/-- The comparator finds two numbers in the order they are in. -/
theorem ranksBefore_of_byScore {a b : MemoryEntry φ × Nat} (ha : ∃ x, F.value (score a.1) = .num x)
    (hb : ∃ x, F.value (score b.1) = .num x)
    (h : byScore F (a.1, score a.1) (b.1, score b.1) = .lt ∨ (byScore F (a.1, score a.1) (b.1, score b.1) = .eq ∧ a.2 < b.2)) :
    RanksBefore F score a b := by
  obtain ⟨x, hx⟩ := ha
  obtain ⟨y, hy⟩ := hb
  have hcmp : (F.value (score b.1)).partialCmp (F.value (score a.1)) = some (compare y x) := by
    rw [hx, hy]
    rfl
  simpa only [byScore, RanksBefore, hcmp, Option.getD_some, Option.some.injEq] using h

theorem pairwise_ranking (F : Floats φ σ) (score : MemoryEntry φ → φ) (lt : LongTermMemory φ) (minScore : φ) :
    (ranking F score lt minScore).Pairwise (RanksBefore F score) := by
  have htotal : TotalOn (fun a b : MemoryEntry φ × Nat => byScore F (a.1, score a.1) (b.1, score b.1))
      (lt.matching F score minScore) := totalOn_of_num fun a ha => exists_num_of_matching ha
  refine (htotal.pairwise_sortBy (pairwise_matching F score lt minScore)).imp_of_mem ?_
  intro a b ha hb h
  have hmem : ∀ c, c ∈ ranking F score lt minScore → ∃ x, F.value (score c.1) = .num x :=
    fun c hc => exists_num_of_matching ((perm_ranking F score lt minScore).mem_iff.mp hc)
  exact ranksBefore_of_byScore (hmem a ha) (hmem b hb) h

theorem ge_of_ranksBefore {a b : MemoryEntry φ × Nat} (h : RanksBefore F score a b) :
    (F.value (score a.1)).ge (F.value (score b.1)) = true :=
  WithNaN.ge_of_partialCmp (h.imp_right And.left)

/-- The body of a query is a stable top-k of any scoring. -/
theorem stableTopK_queryBy (F : Floats φ σ) (score : MemoryEntry φ → φ) (lt : LongTermMemory φ) (limit : Nat) (minScore : φ) :
    StableTopK F score lt limit minScore (lt.queryBy F score limit minScore) := by
  refine ⟨?_, ?_, ranking F score lt minScore, perm_ranking F score lt minScore, pairwise_ranking F score lt minScore, ?_, ?_⟩
  · intro a ha b hb
    obtain ⟨x, hx⟩ := exists_num_of_matching ha
    obtain ⟨y, hy⟩ := exists_num_of_matching hb
    rw [hx, hy]
    rfl
  · refine totalOn_of_num fun a ha => ?_
    obtain ⟨record, hrecord, rfl⟩ := List.mem_map.mp ha
    exact exists_num_of_matching hrecord
  · have hlen : (lt.matching F score minScore).length = (ranking F score lt minScore).length :=
      (perm_ranking F score lt minScore).length_eq.symm
    rw [queryBy_eq_ranking, hlen, ← List.take_eq_take_min]
  · intro returned hreturned left hleft
    exact ge_of_ranksBefore ((pairwise_ranking F score lt minScore).rel_of_mem_take_of_mem_drop hreturned hleft)

end QueryAux

end LongTermMemory

open LongTermMemory in
/-- A query is a stable top-k, for its own scoring and for any other in its place. -/
theorem query_stable_top_k (F : Floats φ σ) (lt : LongTermMemory φ) (limit : Nat) (minScore : φ) :
    (∀ score, StableTopK F score lt limit minScore (lt.queryBy F score limit minScore)) ∧
      ∀ queryEmbedding, StableTopK F (fun entry => cosineSimilarity F queryEmbedding entry.embedding) lt limit minScore
        (lt.query F queryEmbedding limit minScore) := by
  refine ⟨fun score => QueryAux.stableTopK_queryBy F score lt limit minScore, fun queryEmbedding => ?_⟩
  exact QueryAux.stableTopK_queryBy F (fun entry => cosineSimilarity F queryEmbedding entry.embedding) lt limit minScore

end ChainBridge.AgentMemory
