import ChainBridge.Lib.FirstMatch
import ChainBridge.Lemmas.AgentMemory
import ChainBridge.Lemmas.MemoryIds
import ChainBridge.Theorems.Query
import Mathlib.Data.Int.Order.Basic

/-!
# What a recall touches

A recall looks up each entry it returns by its id, to count the access. Ids are readings of the clock with bits overwritten,
and the first record with the id is the one that is touched: it is the record that was returned exactly if no record inserted
before it was given the same id. The runs are all those of the calls that insert, under all readings of the clock.
-/

namespace ChainBridge.AgentMemory

open Interleave TopK FirstMatch

variable {φ σ : Type} [LinearOrder σ]

/-! ## What the result says -/

/-- The readings of the clock that were made into ids, in the order of the insertions: an embedding was there, and the clock
was read. -/
def idReadings : List (Event (MemoryCall.Answer φ)) → List SystemTime
  | [] => []
  | ⟨.systemTimeNow, _⟩ :: t => idReadings t
  | ⟨.getEmbedding _, .error _⟩ :: t => idReadings t
  | ⟨.getEmbedding _, .ok _⟩ :: ⟨.systemTimeNow, now⟩ :: t => now :: idReadings t
  | ⟨.getEmbedding _, .ok _⟩ :: t => idReadings t

/-- A record, with its position, is one of the first `limit` of those that score enough: fewer than `limit` of them come before
it. -/
def LongTermMemory.Selected (F : Floats φ σ) (queryEmbedding : List φ) (lt : LongTermMemory φ) (limit : Nat) (minScore : φ)
    (record : MemoryEntry φ × Nat) : Prop :=
  let score := fun entry : MemoryEntry φ => cosineSimilarity F queryEmbedding entry.embedding
  record ∈ lt.matching F score minScore ∧
    (lt.matching F score minScore).countP (fun other => RanksBefore F score other record) < limit

/-- The records after a recall: those it returned, found in the list before it at different positions, were accessed once more,
and the others are the same. -/
def TouchesExactly (before returned after : List (MemoryEntry φ)) : Prop :=
  ∃ positions : List Nat, positions.Nodup ∧ positions.map (before[·]?) = returned.map some ∧ after.length = before.length ∧
    ∀ i entry, before[i]? = some entry →
      (i ∈ positions → ∃ now, after[i]? = some { entry with lastAccessedAtMs := now, accessCount := entry.accessCount + 1 }) ∧
      (i ∉ positions → after[i]? = some entry)

namespace RecallAux

open AgentMemorySystem LongTermMemory QueryAux

/-! ## Touching by ids -/

/-- The records after touches at positions: each is accessed as often as it was touched. -/
structure Touched (before : List (MemoryEntry φ)) (touches : List Nat) (after : List (MemoryEntry φ)) : Prop where
  length : after.length = before.length
  record : ∀ i entry, before[i]? = some entry → ∃ now,
    after[i]? = some { entry with lastAccessedAtMs := now, accessCount := entry.accessCount + touches.count i } ∧
      (i ∉ touches → now = entry.lastAccessedAtMs)

theorem Touched.refl (before : List (MemoryEntry φ)) : Touched before [] before :=
  ⟨rfl, fun _ entry h => ⟨entry.lastAccessedAtMs, by simpa using h, fun _ => rfl⟩⟩

/-- A touch does not change an id. -/
theorem first_touchEntry (lt : LongTermMemory φ) (id : String) (now : SystemTime) (id' : String) :
    first MemoryEntry.id (lt.touchEntry id now).entries id' = first MemoryEntry.id lt.entries id' := by
  have hids : (lt.touchEntry id now).entries.map MemoryEntry.id = lt.entries.map MemoryEntry.id := by
    refine List.ext_getElem? fun i => ?_
    rw [List.getElem?_map, List.getElem?_map, touchEntry, List.getElem?_modify]
    cases lt.entries[i]? with
    | none => rfl
    | some entry => by_cases h : lt.entries.findIdx (fun e => e.id == id) = i <;> simp [h]
  have hfirst : ∀ l : List (MemoryEntry φ), first MemoryEntry.id l id' = (l.map MemoryEntry.id).findIdx (· == id') := by
    intro l
    rw [List.findIdx_map]
    rfl
  rw [hfirst, hfirst, hids]

/-- One touch, and the touches after it. -/
theorem Touched.cons {lt : LongTermMemory φ} {id : String} {now : SystemTime} {touches : List Nat} {after : List (MemoryEntry φ)}
    (h : Touched (lt.touchEntry id now).entries touches after) :
    Touched lt.entries (first MemoryEntry.id lt.entries id :: touches) after := by
  refine ⟨h.length.trans (List.length_modify _ _ _), fun i entry hentry => ?_⟩
  by_cases hi : first MemoryEntry.id lt.entries id = i
  · have hstep : (lt.touchEntry id now).entries[i]? =
        some { entry with lastAccessedAtMs := currentTimeMs now, accessCount := entry.accessCount + 1 } := by
      rw [touchEntry, List.getElem?_modify, hentry]
      exact congrArg some (if_pos hi)
    obtain ⟨last, hafter, -⟩ := h.record i _ hstep
    refine ⟨last, ?_, fun hnot => absurd (hi ▸ List.mem_cons_self) hnot⟩
    rw [hafter, hi, List.count_cons_self]
    simp only [Nat.add_assoc, Nat.add_comm 1]
  · have hstep : (lt.touchEntry id now).entries[i]? = some entry := by
      rw [touchEntry, List.getElem?_modify, hentry]
      exact congrArg some (if_neg hi)
    obtain ⟨last, hafter, hsame⟩ := h.record i _ hstep
    refine ⟨last, ?_, fun hnot => hsame fun hmem => hnot (List.mem_cons_of_mem _ hmem)⟩
    rw [hafter, List.count_cons_of_ne hi]

/-- An id that no record has is not touched. -/
theorem Touched.skip {before after : List (MemoryEntry φ)} {id : String} {touches : List Nat} (h : Touched before touches after)
    (hid : before.any (fun e => e.id == id) = false) : Touched before (first MemoryEntry.id before id :: touches) after := by
  have hnone : first MemoryEntry.id before id = before.length :=
    List.findIdx_eq_length_of_false fun e he => by simpa using List.any_eq_false.mp hid e he
  refine ⟨h.length, fun i entry hentry => ?_⟩
  have hi : i < before.length := (List.getElem?_eq_some_iff.mp hentry).1
  have hne : first MemoryEntry.id before id ≠ i := by omega
  obtain ⟨last, hafter, hsame⟩ := h.record i entry hentry
  refine ⟨last, ?_, fun hnot => hsame fun hmem => hnot (List.mem_cons_of_mem _ hmem)⟩
  rw [hafter, List.count_cons_of_ne hne]

/-- The loop of a recall touches the first record of each id. -/
theorem touched_of_exec {ids : List String} {lt lt' : LongTermMemory φ} {t : List (Event (MemoryCall.Answer φ))}
    (h : Prog.Exec (touchEntries lt ids) t lt') :
    Touched lt.entries (ids.map (first MemoryEntry.id lt.entries)) lt'.entries := by
  induction ids generalizing lt t with
  | nil =>
    obtain ⟨-, rfl⟩ := Prog.exec_ret.mp h
    exact Touched.refl _
  | cons id ids ih =>
    rw [touchEntries] at h
    by_cases hid : lt.entries.any (fun e => e.id == id) = true
    · rw [if_pos hid] at h
      obtain ⟨now, t', -, h'⟩ := Prog.exec_perform.mp h
      have hrest := ih h'
      rw [List.map_congr_left fun id' _ => first_touchEntry lt id now id'] at hrest
      exact hrest.cons
    · rw [if_neg hid] at h
      exact (ih h).skip (Bool.eq_false_iff.mpr hid)

/-- How often a record was touched is told by its access count. -/
theorem Touched.count_eq {before after : List (MemoryEntry φ)} {touches : List Nat} (h : Touched before touches after) {i n now : Nat}
    {entry : MemoryEntry φ} (hentry : before[i]? = some entry)
    (hafter : after[i]? = some { entry with lastAccessedAtMs := now, accessCount := entry.accessCount + n }) :
    touches.count i = n := by
  obtain ⟨last, hlast, -⟩ := h.record i entry hentry
  have hcount := congrArg (fun e => e.map MemoryEntry.accessCount) (hlast.symm.trans hafter)
  simpa using hcount

/-- Touches are exact if each record is touched as often as it is among the positions of what was returned. -/
theorem touchesExactly_iff {before returned after : List (MemoryEntry φ)} {touches : List Nat} (h : Touched before touches after)
    (htouches : ∀ i ∈ touches, i < before.length) :
    TouchesExactly before returned after ↔
      ∃ positions : List Nat, positions.Nodup ∧ positions.map (before[·]?) = returned.map some ∧
        ∀ i, touches.count i = positions.count i := by
  constructor
  · rintro ⟨positions, hnodup, hreturned, -, hrecords⟩
    refine ⟨positions, hnodup, hreturned, fun i => ?_⟩
    cases hentry : before[i]? with
    | none =>
      have hout := List.getElem?_eq_none_iff.mp hentry
      have hnot : i ∉ positions := by
        intro hmem
        have hsome : before[i]? ∈ returned.map some := hreturned ▸ List.mem_map_of_mem hmem
        rw [hentry] at hsome
        simp at hsome
      rw [List.count_eq_zero_of_not_mem hnot, List.count_eq_zero_of_not_mem fun hmem => absurd (htouches i hmem) (by omega)]
    | some entry =>
      obtain ⟨hin, hout⟩ := hrecords i entry hentry
      by_cases hmem : i ∈ positions
      · obtain ⟨now, hafter⟩ := hin hmem
        rw [List.count_eq_one_of_mem hnodup hmem, h.count_eq hentry hafter]
      · have hsame : after[i]? =
            some { entry with lastAccessedAtMs := entry.lastAccessedAtMs, accessCount := entry.accessCount + 0 } := hout hmem
        rw [List.count_eq_zero_of_not_mem hmem, h.count_eq hentry hsame]
  · rintro ⟨positions, hnodup, hreturned, hcount⟩
    refine ⟨positions, hnodup, hreturned, h.length, fun i entry hentry => ⟨fun hmem => ?_, fun hmem => ?_⟩⟩
    · obtain ⟨last, hafter, -⟩ := h.record i entry hentry
      rw [hcount i, List.count_eq_one_of_mem hnodup hmem] at hafter
      exact ⟨last, hafter⟩
    · obtain ⟨last, hafter, hsame⟩ := h.record i entry hentry
      have hzero : touches.count i = 0 := by rw [hcount i, List.count_eq_zero_of_not_mem hmem]
      rw [hzero, hsame (List.count_eq_zero.mp hzero)] at hafter
      exact hafter

/-! ## What a recall returns -/

section Returned

variable {F : Floats φ σ} {queryEmbedding : List φ} {lt : LongTermMemory φ} {limit : Nat} {minScore : φ}

/-- The records that a query returns, with their positions. -/
def returnedAt (F : Floats φ σ) (queryEmbedding : List φ) (lt : LongTermMemory φ) (limit : Nat) (minScore : φ) :
    List (MemoryEntry φ × Nat) :=
  (ranking F (fun entry => cosineSimilarity F queryEmbedding entry.embedding) lt minScore).take limit

theorem query_eq_returnedAt :
    (lt.query F queryEmbedding limit minScore).map Prod.fst = (returnedAt F queryEmbedding lt limit minScore).map Prod.fst := by
  rw [query, queryBy_eq_ranking, List.map_map]
  rfl

theorem ranksBefore_asymm {score : MemoryEntry φ → φ} (a b : MemoryEntry φ × Nat) (h : RanksBefore F score a b) :
    ¬ RanksBefore F score b a := by
  intro h'
  rw [RanksBefore, WithNaN.partialCmp_swap] at h'
  rcases h with h | ⟨h, hlt⟩
  · rw [h] at h'
    simp at h'
  · rw [h] at h'
    simp at h'
    omega

/-- A query returns the records that are selected. -/
theorem mem_returnedAt {record : MemoryEntry φ × Nat} :
    record ∈ returnedAt F queryEmbedding lt limit minScore ↔ Selected F queryEmbedding lt limit minScore record := by
  rw [returnedAt, mem_take_iff_countP ranksBefore_asymm (pairwise_ranking F _ lt minScore), (perm_ranking F _ lt minScore).mem_iff,
    (perm_ranking F _ lt minScore).countP_eq]
  rfl

theorem getElem?_of_returnedAt {record : MemoryEntry φ × Nat} (h : record ∈ returnedAt F queryEmbedding lt limit minScore) :
    lt.entries[record.2]? = some record.1 := by
  have hmatching := (perm_ranking F _ lt minScore).mem_iff.mp (List.mem_of_mem_take h)
  exact List.mem_zipIdx_iff_getElem?.mp (List.mem_filter.mp hmatching).1

/-- The positions of the records that a query returns. -/
def positionsAt (F : Floats φ σ) (queryEmbedding : List φ) (lt : LongTermMemory φ) (limit : Nat) (minScore : φ) : List Nat :=
  (returnedAt F queryEmbedding lt limit minScore).map Prod.snd

theorem nodup_ranking (score : MemoryEntry φ → φ) : ((ranking F score lt minScore).map Prod.snd).Nodup := by
  rw [((perm_ranking F score lt minScore).map Prod.snd).nodup_iff]
  exact List.pairwise_map.mpr ((pairwise_matching F score lt minScore).imp Nat.ne_of_lt)

theorem nodup_positionsAt : (positionsAt F queryEmbedding lt limit minScore).Nodup := by
  rw [positionsAt, returnedAt, List.map_take]
  exact (nodup_ranking _).sublist (List.take_sublist _ _)

theorem mem_positionsAt {i : Nat} (h : i ∈ positionsAt F queryEmbedding lt limit minScore) :
    ∃ entry, Selected F queryEmbedding lt limit minScore (entry, i) ∧ lt.entries[i]? = some entry := by
  obtain ⟨record, hrecord, rfl⟩ := List.mem_map.mp h
  exact ⟨record.1, mem_returnedAt.mp hrecord, getElem?_of_returnedAt hrecord⟩

theorem lt_of_mem_positionsAt {i : Nat} (h : i ∈ positionsAt F queryEmbedding lt limit minScore) : i < lt.entries.length := by
  obtain ⟨entry, -, hentry⟩ := mem_positionsAt h
  exact (List.getElem?_eq_some_iff.mp hentry).1

/-- The records at the positions are those that are returned. -/
theorem getElem?_positionsAt :
    (positionsAt F queryEmbedding lt limit minScore).map (lt.entries[·]?) =
      ((lt.query F queryEmbedding limit minScore).map Prod.fst).map some := by
  rw [query_eq_returnedAt, positionsAt, List.map_map, List.map_map]
  exact List.map_congr_left fun record hrecord => getElem?_of_returnedAt hrecord

/-- A recall touches the first records with the ids of those at the positions. -/
theorem firstOf_positionsAt :
    ((lt.query F queryEmbedding limit minScore).map fun result => result.1.id).map (first MemoryEntry.id lt.entries) =
      (positionsAt F queryEmbedding lt limit minScore).map (firstOf MemoryEntry.id lt.entries) := by
  have hids : ((lt.query F queryEmbedding limit minScore).map fun result => result.1.id) =
      ((lt.query F queryEmbedding limit minScore).map Prod.fst).map MemoryEntry.id := by
    rw [List.map_map]
    rfl
  rw [hids, query_eq_returnedAt, positionsAt, List.map_map, List.map_map, List.map_map]
  exact List.map_congr_left fun record hrecord => (firstOf_of_getElem? (getElem?_of_returnedAt hrecord)).symm

/-- Of two equal records the earlier one ranks first. -/
theorem selected_earlier {entry : MemoryEntry φ} {i j : Nat} (h : Selected F queryEmbedding lt limit minScore (entry, i))
    (hj : j < i) (hentry : lt.entries[j]? = some entry) : Selected F queryEmbedding lt limit minScore (entry, j) := by
  obtain ⟨hmem, hrank⟩ := h
  refine ⟨List.mem_filter.mpr ⟨List.mem_zipIdx_iff_getElem?.mpr hentry, (List.mem_filter.mp hmem).2⟩, ?_⟩
  refine Nat.lt_of_le_of_lt (List.countP_mono_left fun other _ hother => ?_) hrank
  refine decide_eq_true ((of_decide_eq_true hother).imp_right fun htie => ⟨htie.1, ?_⟩)
  exact Nat.lt_trans htie.2 hj

theorem positionsAt_earlier {i j : Nat} (h : i ∈ positionsAt F queryEmbedding lt limit minScore) (hj : j < i)
    (hsame : lt.entries[j]? = lt.entries[i]?) : j ∈ positionsAt F queryEmbedding lt limit minScore := by
  obtain ⟨entry, hselected, hentry⟩ := mem_positionsAt h
  have hearlier := selected_earlier hselected hj (hsame.trans hentry)
  exact List.mem_map.mpr ⟨(entry, j), mem_returnedAt.mpr hearlier, rfl⟩

/-- The touches of a recall are exact if each record it returns is the first with its id. -/
theorem touchesExactly_query_iff {after : List (MemoryEntry φ)}
    (h : Touched lt.entries
      (((lt.query F queryEmbedding limit minScore).map fun result => result.1.id).map (first MemoryEntry.id lt.entries)) after) :
    TouchesExactly lt.entries ((lt.query F queryEmbedding limit minScore).map Prod.fst) after ↔
      ∀ record, Selected F queryEmbedding lt limit minScore record →
        firstOf MemoryEntry.id lt.entries record.2 = record.2 := by
  rw [firstOf_positionsAt] at h
  have htouches : ∀ i ∈ (positionsAt F queryEmbedding lt limit minScore).map (firstOf MemoryEntry.id lt.entries),
      i < lt.entries.length := by
    intro i hi
    obtain ⟨j, hj, rfl⟩ := List.mem_map.mp hi
    have hlt := lt_of_mem_positionsAt hj
    exact Nat.lt_of_le_of_lt (firstOf_le MemoryEntry.id hlt) hlt
  rw [touchesExactly_iff h htouches, ← getElem?_positionsAt, count_firstOf_iff nodup_positionsAt
    (fun i hi => lt_of_mem_positionsAt hi) fun i hi j hj hsame => positionsAt_earlier hi hj hsame]
  rw [positionsAt, List.forall_mem_map]
  exact forall_congr' fun record => imp_congr_left mem_returnedAt

end Returned

/-! ## Ids over a run -/

/-- The ids of the records, in the order of the insertions. -/
def ids (m : AgentMemorySystem φ) : List String := m.longTerm.entries.map MemoryEntry.id

/-- A call inserts the entries whose ids it read off the clock, and is over before the next call. -/
theorem ids_run {m m' : AgentMemorySystem φ} {op : Operation} {t : List (Event (MemoryCall.Answer φ))}
    (h : Prog.Exec (op.run m) t m') (u : List (Event (MemoryCall.Answer φ))) :
    ∃ readings, ids m' = ids m ++ readings.map uuidV4Placeholder ∧ idReadings (t ++ u) = readings ++ idReadings u := by
  cases op with
  | addMessage role content metadata =>
    obtain ⟨now, rfl, rfl⟩ := exec_addMessage.mp h
    exact ⟨[], by simp [ids], rfl⟩
  | rememberFact fact tags metadata =>
    obtain ⟨r, h⟩ := exec_snd.mp h
    rcases exec_embedAndInsert.mp h with ⟨e, rfl, -, rfl⟩ | ⟨embedding, idAt, now, rfl, -, rfl⟩
    · exact ⟨[], by simp, rfl⟩
    · exact ⟨[idAt], by simp [ids, newEntry], rfl⟩
  | consolidate keepRecent =>
    obtain ⟨r, h⟩ := exec_snd.mp h
    rcases exec_consolidate.mp h with ⟨-, rfl, -, rfl⟩ | ⟨-, e, rfl, -, rfl⟩ | ⟨-, embedding, idAt, now, rfl, -, rfl⟩
    · exact ⟨[], by simp, rfl⟩
    · exact ⟨[], by simp [ids], rfl⟩
    · exact ⟨[idAt], by simp [ids, newEntry], rfl⟩

/-- The ids of a run are those of the readings of the clock it made for them. -/
theorem ids_session {ops : List Operation} {m m' : AgentMemorySystem φ} {t : List (Event (MemoryCall.Answer φ))}
    (h : Prog.Exec (session m ops) t m') : ids m' = ids m ++ (idReadings t).map uuidV4Placeholder := by
  induction ops generalizing m t with
  | nil =>
    obtain ⟨rfl, rfl⟩ := Prog.exec_ret.mp h
    simp [idReadings]
  | cons op ops ih =>
    obtain ⟨t₁, t₂, m₁, rfl, h₁, h₂⟩ := exec_session_cons.mp h
    obtain ⟨readings, hids, hreadings⟩ := ids_run h₁ t₂
    rw [ih h₂, hids, hreadings, List.map_append, List.append_assoc]

theorem ids_of_session_new {maxMessages : Nat} {ops : List Operation} {m : AgentMemorySystem φ}
    {t : List (Event (MemoryCall.Answer φ))} (h : Prog.Exec (session (.new maxMessages) ops) t m) :
    ids m = (idReadings t).map uuidV4Placeholder := by
  rw [ids_session h]
  rfl

/-- A record of a run is the first with its id exactly if no reading before its own agrees with it in the bits that are
shown. -/
theorem firstOf_iff_readings {readings : List SystemTime} {m : AgentMemorySystem φ} (h : ids m = readings.map uuidV4Placeholder)
    {i : Nat} {entry : MemoryEntry φ} (hentry : m.longTerm.entries[i]? = some entry) :
    firstOf MemoryEntry.id m.longTerm.entries i = i ↔
      ∀ j < i, ∀ a b, readings[j]? = some a → readings[i]? = some b → ¬ SameShown a b := by
  have hid : ∀ k : Nat, m.longTerm.entries[k]?.map MemoryEntry.id = readings[k]?.map uuidV4Placeholder := by
    intro k
    rw [← List.getElem?_map, ← List.getElem?_map, ← h]
    rfl
  rw [firstOf_eq_self_iff hentry]
  constructor
  · intro hfirst j hj a b ha hb hshown
    have hidj := hid j
    have hidi := hid i
    rw [ha, Option.map_some, Option.map_eq_some_iff] at hidj
    rw [hentry, hb, Option.map_some, Option.map_some, Option.some.injEq] at hidi
    obtain ⟨earlier, hearlier, hida⟩ := hidj
    refine hfirst j hj earlier hearlier ?_
    rw [hida, hidi]
    exact (uuidV4Placeholder_eq_iff a b).mpr hshown
  · intro hnone j hj earlier hearlier hsame
    have hidj := hid j
    have hidi := hid i
    rw [hearlier, Option.map_some, eq_comm, Option.map_eq_some_iff] at hidj
    rw [hentry, Option.map_some, eq_comm, Option.map_eq_some_iff] at hidi
    obtain ⟨a, ha, hida⟩ := hidj
    obtain ⟨b, hb, hidb⟩ := hidi
    refine hnone j hj a b ha hb ((uuidV4Placeholder_eq_iff a b).mp ?_)
    rw [hida, hidb, hsame]

/-- A recall that returns a list: the records come from the query, and each is touched by its id. -/
theorem exec_recallEntries {F : Floats φ σ} {m m' : AgentMemorySystem φ} {query : String} {limit : Nat} {minScore : φ}
    {queryEmbedding : List φ} {t : List (Event (MemoryCall.Answer φ))} {results : List (MemoryEntry φ × φ)}
    (h : Prog.Exec (m.recallEntries F query limit minScore) (⟨.getEmbedding query, .ok queryEmbedding⟩ :: t) (.ok results, m')) :
    results = m.longTerm.query F queryEmbedding limit minScore ∧
      Prog.Exec (touchEntries m.longTerm (results.map fun result => result.1.id)) t m'.longTerm := by
  obtain ⟨t₁, t₂, lt, rfl, h₁, h₂⟩ := Prog.exec_bind.mp (Prog.exec_perform_cons.mp h)
  obtain ⟨rfl, hr⟩ := Prog.exec_ret.mp h₂
  cases hr
  exact ⟨rfl, by simpa using h₁⟩

end RecallAux

open RecallAux in
/-- After any run, a recall that returns a list counts one access of each record it returned and changes no other, exactly if
for none of the records it selects there is an earlier insertion whose reading of the clock shows the same bits in its id. -/
theorem recall_touches_returned_iff (F : Floats φ σ) (maxMessages : Nat) (ops : List Operation)
    (t : List (Event (MemoryCall.Answer φ))) (m : AgentMemorySystem φ) (h : Prog.Exec (session (.new maxMessages) ops) t m)
    (query : String) (limit : Nat) (minScore : φ) (queryEmbedding : List φ) (t' : List (Event (MemoryCall.Answer φ)))
    (results : List (MemoryEntry φ × φ)) (m' : AgentMemorySystem φ)
    (h' : Prog.Exec (m.recallEntries F query limit minScore) (⟨.getEmbedding query, .ok queryEmbedding⟩ :: t') (.ok results, m')) :
    TouchesExactly m.longTerm.entries (results.map Prod.fst) m'.longTerm.entries ↔
      ∀ entry i, m.longTerm.Selected F queryEmbedding limit minScore (entry, i) →
        ∀ j < i, ∀ a b, (idReadings t)[j]? = some a → (idReadings t)[i]? = some b → ¬ SameShown a b := by
  obtain ⟨rfl, htouch⟩ := exec_recallEntries h'
  rw [touchesExactly_query_iff (touched_of_exec htouch), Prod.forall]
  refine forall_congr' fun entry => forall_congr' fun i => forall_congr' fun hselected => ?_
  exact firstOf_iff_readings (ids_of_session_new h) (getElem?_of_returnedAt (mem_returnedAt.mpr hselected))

/-! ## Two facts -/

section Facts

open AgentMemorySystem RecallAux

/-- Whole numbers, with the square root rounded down. -/
def wholeNumbers : Floats Int Int where
  zero := 0
  add := (· + ·)
  mul := (· * ·)
  div := (· / ·)
  sqrt := fun x => ((List.range (x.toNat + 1)).find? fun n => decide (x.toNat < (n + 1) * (n + 1))).getD 0
  value := .num

/-- Two facts are remembered. -/
def twoFacts : List Operation :=
  [.rememberFact "The vault is sealed" [] [], .rememberFact "The bridge is paused" [] []]

/-- The answers to them, with the readings of the clock that become ids. -/
def factAnswers (first second : SystemTime) : List (Event (MemoryCall.Answer Int)) :=
  [⟨.getEmbedding "The vault is sealed", .ok [1]⟩, ⟨.systemTimeNow, first⟩, ⟨.systemTimeNow, first⟩,
    ⟨.getEmbedding "The bridge is paused", .ok [1]⟩, ⟨.systemTimeNow, second⟩, ⟨.systemTimeNow, second⟩]

/-- The memory after them. -/
def factMemory (first second : SystemTime) : AgentMemorySystem Int :=
  { shortTerm := .new 3,
    longTerm := { entries := [newEntry "The vault is sealed" [1] [] [] first first,
      newEntry "The bridge is paused" [1] [] [] second second] } }

theorem exec_twoFacts (first second : SystemTime) :
    Prog.Exec (session (.new 3) twoFacts) (factAnswers first second) (factMemory first second) :=
  .cons _ _ (.cons _ _ (.cons _ _ (.cons _ _ (.cons _ _ (.cons _ _ (.nil _))))))

/-- The clock can be read as often as it takes to touch every entry. -/
theorem exists_exec_touchEntries (ids : List String) (lt : LongTermMemory φ) : ∃ t lt', Prog.Exec (touchEntries lt ids) t lt' := by
  induction ids generalizing lt with
  | nil => exact ⟨[], lt, .nil _⟩
  | cons id ids ih =>
    rw [touchEntries]
    by_cases hid : lt.entries.any (fun e => e.id == id) = true
    · rw [if_pos hid]
      obtain ⟨t, lt', h⟩ := ih (lt.touchEntry id ⟨0⟩)
      exact ⟨⟨.systemTimeNow, ⟨0⟩⟩ :: t, lt', .cons _ _ h⟩
    · rw [if_neg hid]
      exact ih lt

/-- A recall returns, if the provider embeds the query. -/
theorem exists_exec_recallEntries (F : Floats φ σ) (m : AgentMemorySystem φ) (query : String) (limit : Nat) (minScore : φ)
    (queryEmbedding : List φ) :
    ∃ t m', Prog.Exec (m.recallEntries F query limit minScore) (⟨.getEmbedding query, .ok queryEmbedding⟩ :: t)
      (.ok (m.longTerm.query F queryEmbedding limit minScore), m') := by
  obtain ⟨t, lt', h⟩ :=
    exists_exec_touchEntries ((m.longTerm.query F queryEmbedding limit minScore).map fun result => result.1.id) m.longTerm
  refine ⟨t, { m with longTerm := lt' }, Prog.exec_perform_cons.mpr (Prog.exec_bind.mpr ⟨t, [], lt', by simp, h, ?_⟩)⟩
  exact Prog.exec_ret.mpr ⟨rfl, rfl⟩

theorem recall_touches_two_facts :
    ∃ t results m', Prog.Exec ((factMemory ⟨1⟩ ⟨2⟩).recallEntries wholeNumbers "bridge" 10 1) t (.ok results, m') ∧
      TouchesExactly (factMemory ⟨1⟩ ⟨2⟩).longTerm.entries (results.map Prod.fst) m'.longTerm.entries := by
  obtain ⟨t, m', hrecall⟩ := exists_exec_recallEntries wholeNumbers (factMemory ⟨1⟩ ⟨2⟩) "bridge" 10 1 [1]
  refine ⟨_, _, m', hrecall, (recall_touches_returned_iff wholeNumbers 3 twoFacts (factAnswers ⟨1⟩ ⟨2⟩) _ (exec_twoFacts ⟨1⟩ ⟨2⟩)
    "bridge" 10 1 [1] t _ m' hrecall).mpr ?_⟩
  have hreadings : idReadings (factAnswers ⟨1⟩ ⟨2⟩) = [⟨1⟩, ⟨2⟩] := rfl
  rw [hreadings]
  intro entry i _ j hj a b ha hb hshown
  have hi : i < 2 := (List.getElem?_eq_some_iff.mp hb).1
  obtain rfl : i = 1 := by omega
  obtain rfl : j = 0 := by omega
  cases ha
  cases hb
  exact absurd (hshown 0 (by decide)) (by decide)

/-- The clock shows the same time at two insertions: the ids are equal, and a recall of both facts counts two accesses of the
one and none of the other. -/
theorem equal_ids_touched_twice :
    ¬ ∀ (ops : List Operation) (t : List (Event (MemoryCall.Answer Int))) (m : AgentMemorySystem Int),
      Prog.Exec (session (.new 3) ops) t m →
      ∀ (query : String) (limit : Nat) (minScore : Int) (t' : List (Event (MemoryCall.Answer Int)))
        (results : List (MemoryEntry Int × Int)) (m' : AgentMemorySystem Int),
      Prog.Exec (m.recallEntries wholeNumbers query limit minScore) t' (.ok results, m') →
        TouchesExactly m.longTerm.entries (results.map Prod.fst) m'.longTerm.entries := by
  intro hall
  obtain ⟨t, m', hrecall⟩ := exists_exec_recallEntries wholeNumbers (factMemory ⟨1⟩ ⟨1⟩) "bridge" 10 1 [1]
  have hselected : (factMemory ⟨1⟩ ⟨1⟩).longTerm.Selected wholeNumbers [1] 10 1
      (newEntry "The bridge is paused" [1] [] [] ⟨1⟩ ⟨1⟩, 1) := by
    refine ⟨List.mem_cons_of_mem _ List.mem_cons_self, ?_⟩
    decide
  have hexact := hall twoFacts _ _ (exec_twoFacts ⟨1⟩ ⟨1⟩) "bridge" 10 1 _ _ m' hrecall
  have hfirst := (touchesExactly_query_iff (touched_of_exec (exec_recallEntries hrecall).2)).mp hexact
    (newEntry "The bridge is paused" [1] [] [] ⟨1⟩ ⟨1⟩, 1) hselected
  exact absurd hfirst (by decide)

end Facts

end ChainBridge.AgentMemory
