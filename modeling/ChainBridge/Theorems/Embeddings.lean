import ChainBridge.Embedding
import ChainBridge.Theorems.Consolidation

/-!
# Batches of embeddings

The vectors that come back for a batch are those of its texts, one for each and in order, if every item of the response has its
embedding array and there are as many as texts. An item without one is passed over and nothing counts the rest, so a response
that lacks an item gives the vectors of later texts to earlier ones. A number that is none is an error, and so is a response
without any vector.
-/

namespace ChainBridge.AgentMemory

open Interleave

variable {φ : Type}

/-! ## What a response holds -/

/-- The items of a response: those of its `data`, if that is an array. -/
def responseItems (parsed : Json) : List Json := ((parsed.get? "data").bind Json.asArray).getD []

/-- The vector is the embedding array of the item, number by number. -/
def EmbeddingOf (asF32 : UInt64 → φ) (item : Json) (v : List φ) : Prop :=
  ∃ values, (item.get? "embedding").bind Json.asArray = some values ∧ values.map (fun x => x.asF64.map asF32) = v.map some

/-- There is one vector for each text, and it is the embedding array of the item in its place. -/
structure Aligned (asF32 : UInt64 → φ) (texts : List String) (parsed : Json) (vs : List (List φ)) : Prop where
  length : vs.length = texts.length
  items : (responseItems parsed).length = texts.length
  each : ∀ (i : Nat) item v, (responseItems parsed)[i]? = some item → vs[i]? = some v → EmbeddingOf asF32 item v

/-- Whenever a batch whose response has this body returns vectors, they are aligned with its texts. -/
def BatchAligned (asF32 : UInt64 → φ) (p : RemoteEmbeddingProvider) (texts : List String) (parsed : Json) : Prop :=
  ∀ t vs, Prog.Exec (p.getEmbeddings asF32 texts) t (.ok vs) → (⟨.json, .ok parsed⟩ : HttpEvent) ∈ t →
    Aligned asF32 texts parsed vs

namespace EmbeddingsAux

open RemoteEmbeddingProvider

/-! ## The loop over the items -/

variable {asF32 : UInt64 → φ}

/-- The number of a JSON value as `f32`. -/
def number (asF32 : UInt64 → φ) (x : Json) : Option φ := x.asF64.map asF32

/-- The vector of an item whose values are numbers. -/
def vector (asF32 : UInt64 → φ) (item : Json) : Option (List φ) :=
  (embeddingArray item).map fun values => values.filterMap (number asF32)

/-- The vectors of a response, where its items have one. -/
def vectors (asF32 : UInt64 → φ) (parsed : Json) : List (List φ) := (responseItems parsed).filterMap (vector asF32)

/-- The values of an item's embedding array, if it has one, are numbers. -/
def Numeric (asF32 : UInt64 → φ) (item : Json) : Prop :=
  ∀ values, embeddingArray item = some values → ∀ x ∈ values, (number asF32 x).isSome = true

/-- Where nothing is left out, what is collected is in its place. -/
theorem map_some_filterMap {α β : Type} {f : α → Option β} {l : List α} (h : ∀ x ∈ l, (f x).isSome = true) :
    (l.filterMap f).map some = l.map f := by
  rw [List.map_filterMap_some_eq_filter_map_isSome, List.filter_eq_self]
  exact List.forall_mem_map.mpr h

theorem readEmbedding_numbers {values : List Json} (h : ∀ x ∈ values, (number asF32 x).isSome = true) :
    readEmbedding asF32 values = .ok (values.filterMap (number asF32)) := by
  induction values with
  | nil => rfl
  | cons x values ih =>
    obtain ⟨hx, hvalues⟩ := List.forall_mem_cons.mp h
    obtain ⟨f, hf⟩ := Option.isSome_iff_exists.mp hx
    have hrest := ih hvalues
    rw [readEmbedding] at hrest
    rw [readEmbedding, List.mapM_cons, hrest, List.filterMap_cons_some hf]
    rw [number] at hf
    rw [hf]
    rfl

theorem readEmbedding_not_number {values : List Json} {x : Json} (hx : x ∈ values) (h : number asF32 x = none) :
    ∃ e, readEmbedding asF32 values = .error e := by
  induction values with
  | nil => cases hx
  | cons y values ih =>
    rw [readEmbedding, List.mapM_cons]
    cases hy : y.asF64.map asF32 with
    | none => exact ⟨_, rfl⟩
    | some f =>
      have hmem : x ∈ values := by
        rcases List.mem_cons.mp hx with rfl | hmem
        · rw [number, hy] at h
          cases h
        · exact hmem
      obtain ⟨e, he⟩ := ih hmem
      rw [readEmbedding] at he
      rw [he]
      exact ⟨e, rfl⟩

/-- An item adds its vector, or nothing. -/
theorem pushEmbedding_numeric {results : List (List φ)} {item : Json} (h : Numeric asF32 item) :
    pushEmbedding asF32 results item = .ok (results ++ (vector asF32 item).toList) := by
  rw [pushEmbedding, vector]
  cases harray : embeddingArray item with
  | none => simp
  | some values => simp only [readEmbedding_numbers (h values harray), Option.map_some, Option.toList_some]

theorem pushEmbedding_not_numeric (results : List (List φ)) {item : Json} (h : ¬Numeric asF32 item) :
    ∃ e, pushEmbedding asF32 results item = .error e := by
  simp only [Numeric, not_forall] at h
  obtain ⟨values, harray, x, hx, hnone⟩ := h
  obtain ⟨e, he⟩ := readEmbedding_not_number hx (Option.not_isSome_iff_eq_none.mp hnone)
  exact ⟨.embeddingFailed e, by rw [pushEmbedding, harray]; simp only [he]⟩

/-- The loop collects the vectors that are there. -/
theorem collect_numeric {data : List Json} {results : List (List φ)} (h : ∀ item ∈ data, Numeric asF32 item) :
    data.foldlM (pushEmbedding asF32) results = .ok (results ++ data.filterMap (vector asF32)) := by
  induction data generalizing results with
  | nil => simp [pure, Except.pure]
  | cons item data ih =>
    obtain ⟨hitem, hdata⟩ := List.forall_mem_cons.mp h
    rw [List.foldlM_cons, pushEmbedding_numeric hitem]
    show data.foldlM (pushEmbedding asF32) _ = _
    rw [ih hdata, List.filterMap_cons]
    cases vector asF32 item <;> simp

/-- The loop fails at an item that is not numeric. -/
theorem collect_not_numeric (results : List (List φ)) {data : List Json} {item : Json} (hmem : item ∈ data)
    (h : ¬Numeric asF32 item) :
    ∃ e, data.foldlM (pushEmbedding asF32) results = .error e := by
  induction data generalizing results with
  | nil => cases hmem
  | cons first data ih =>
    rw [List.foldlM_cons]
    cases hfirst : pushEmbedding asF32 results first with
    | error e => exact ⟨e, rfl⟩
    | ok results' =>
      rcases List.mem_cons.mp hmem with rfl | hmem
      · obtain ⟨e, he⟩ := pushEmbedding_not_numeric results h
        rw [hfirst] at he
        cases he
      · exact ih results' hmem

/-! ## A call of the provider -/

theorem extract_numeric {parsed : Json} (h : ∀ item ∈ responseItems parsed, Numeric asF32 item) :
    extractEmbeddings asF32 parsed =
      if (vectors asF32 parsed).isEmpty then .error (.embeddingFailed "No embedding data extracted from response")
      else .ok (vectors asF32 parsed) := by
  rw [vectors, responseItems]
  rw [responseItems] at h
  rw [extractEmbeddings]
  cases hdata : (parsed.get? "data").bind Json.asArray with
  | none => rfl
  | some data =>
    rw [hdata, Option.getD_some] at h
    simp only [collect_numeric h, Option.getD_some, List.nil_append]
    rfl

theorem extract_not_numeric {parsed item : Json} (hmem : item ∈ responseItems parsed) (h : ¬Numeric asF32 item) :
    ∃ e, extractEmbeddings asF32 parsed = .error e := by
  rw [responseItems] at hmem
  rw [extractEmbeddings]
  cases hdata : (parsed.get? "data").bind Json.asArray with
  | none =>
    rw [hdata] at hmem
    cases hmem
  | some data =>
    rw [hdata, Option.getD_some] at hmem
    obtain ⟨e, he⟩ := collect_not_numeric [] hmem h
    exact ⟨e, by simp only [he]; rfl⟩

/-- Vectors are returned if every item is numeric and some item has a vector; they are all there are. -/
theorem extract_ok_iff {parsed : Json} {vs : List (List φ)} :
    extractEmbeddings asF32 parsed = .ok vs ↔
      (∀ item ∈ responseItems parsed, Numeric asF32 item) ∧ vectors asF32 parsed ≠ [] ∧ vectors asF32 parsed = vs := by
  by_cases hnumeric : ∀ item ∈ responseItems parsed, Numeric asF32 item
  · rw [extract_numeric hnumeric]
    by_cases hempty : vectors asF32 parsed = []
    · simp [hempty]
    · rw [if_neg (by simpa using hempty)]
      exact ⟨fun h => ⟨hnumeric, hempty, Except.ok.inj h⟩, fun h => congrArg Except.ok h.2.2⟩
  · refine iff_of_false (fun hvs => ?_) fun h => hnumeric h.1
    simp only [not_forall] at hnumeric
    obtain ⟨item, hitem, hbad⟩ := hnumeric
    obtain ⟨e, he⟩ := extract_not_numeric hitem hbad
    rw [he] at hvs
    cases hvs

/-- A call that returns vectors read them from a body. -/
theorem exec_getEmbeddings_ok {p : RemoteEmbeddingProvider} {texts : List String} {t : List HttpEvent} {vs : List (List φ)}
    (h : Prog.Exec (p.getEmbeddings asF32 texts) t (.ok vs)) :
    ∃ call parsed, t = [call, ⟨.json, .ok parsed⟩] ∧ extractEmbeddings asF32 parsed = .ok vs ∧
      ∀ body, call ≠ ⟨.json, body⟩ := by
  obtain ⟨answer, t₁, rfl, h₁⟩ := Prog.exec_perform.mp h
  cases answer with
  | error e => cases (Prog.exec_ret.mp h₁).2
  | ok status =>
    simp only at h₁
    split at h₁
    · obtain ⟨errText, t₂, rfl, h₂⟩ := Prog.exec_perform.mp h₁
      cases (Prog.exec_ret.mp h₂).2
    · obtain ⟨answer, t₂, rfl, h₂⟩ := Prog.exec_perform.mp h₁
      cases answer with
      | error e => cases (Prog.exec_ret.mp h₂).2
      | ok parsed =>
        obtain ⟨rfl, hvs⟩ := Prog.exec_ret.mp h₂
        exact ⟨_, parsed, rfl, hvs, fun body heq => by cases heq⟩

/-- A call whose status is a success returns what it makes of the body. -/
theorem exec_getEmbeddings (asF32 : UInt64 → φ) (p : RemoteEmbeddingProvider) (texts : List String) (parsed : Json) :
    ∃ call, Prog.Exec (p.getEmbeddings asF32 texts) [call, ⟨.json, .ok parsed⟩] (extractEmbeddings asF32 parsed) :=
  ⟨⟨.post _ _ _, .ok ⟨200, "200 OK"⟩⟩, .cons _ _ (.cons _ _ (.nil _))⟩

/-- Only what is made of the body matters. -/
theorem batchAligned_iff {p : RemoteEmbeddingProvider} {texts : List String} {parsed : Json} :
    BatchAligned asF32 p texts parsed ↔
      ((∀ item ∈ responseItems parsed, Numeric asF32 item) → vectors asF32 parsed ≠ [] →
        Aligned asF32 texts parsed (vectors asF32 parsed)) := by
  constructor
  · intro h hnumeric hne
    obtain ⟨call, hexec⟩ := exec_getEmbeddings asF32 p texts parsed
    rw [extract_ok_iff.mpr ⟨hnumeric, hne, rfl⟩] at hexec
    exact h _ _ hexec (List.mem_cons_of_mem _ List.mem_cons_self)
  · intro h t vs hexec hmem
    obtain ⟨call, parsed', rfl, hvs, hcall⟩ := exec_getEmbeddings_ok hexec
    obtain ⟨hnumeric, hne, rfl⟩ := extract_ok_iff.mp hvs
    rcases List.mem_cons.mp hmem with heq | hmem
    · exact absurd heq.symm (hcall _)
    · cases List.mem_singleton.mp hmem
      exact h hnumeric hne

/-! ## Alignment -/

/-- A vector was read number by number. -/
theorem embeddingOf_vector {item : Json} {v : List φ} (h : Numeric asF32 item) (hv : vector asF32 item = some v) :
    EmbeddingOf asF32 item v := by
  obtain ⟨values, harray, rfl⟩ := Option.map_eq_some_iff.mp hv
  exact ⟨values, harray, (map_some_filterMap (h values harray)).symm⟩

theorem not_numeric_iff {parsed : Json} :
    (¬∀ item ∈ responseItems parsed, Numeric asF32 item) ↔
      ∃ item ∈ responseItems parsed, ∃ values, embeddingArray item = some values ∧ ∃ x ∈ values, x.asF64 = none := by
  simp [Numeric, number]

theorem vectors_eq_nil_iff {parsed : Json} :
    vectors asF32 parsed = [] ↔ ∀ item ∈ responseItems parsed, embeddingArray item = none := by
  simp [vectors, vector, List.filterMap_eq_nil_iff]

/-- What is read of a numeric response is aligned with the texts if every item has its array and there is an item for every
text. -/
theorem aligned_iff {texts : List String} {parsed : Json} (h : ∀ item ∈ responseItems parsed, Numeric asF32 item) :
    Aligned asF32 texts parsed (vectors asF32 parsed) ↔
      (∀ item ∈ responseItems parsed, embeddingArray item ≠ none) ∧ (responseItems parsed).length = texts.length := by
  have hvector : ∀ item, (vector asF32 item).isSome = true ↔ embeddingArray item ≠ none := fun item => by
    rw [vector, Option.isSome_map, Option.isSome_iff_ne_none]
  constructor
  · intro haligned
    have hall := List.filterMap_length_eq_length.mp (haligned.length.trans haligned.items.symm)
    exact ⟨fun item hitem => (hvector item).mp (hall item hitem), haligned.items⟩
  · rintro ⟨harrays, hlength⟩
    have hall := fun item hitem => (hvector item).mpr (harrays item hitem)
    have hplaces := map_some_filterMap hall
    refine ⟨?_, hlength, fun i item v hitem hv => ?_⟩
    · rw [vectors, List.filterMap_length_eq_length.mpr hall, hlength]
    · rw [vectors] at hv
      have hplace := congrArg (·[i]?) hplaces
      simp only [List.getElem?_map, hv, hitem, Option.map_some, Option.some.injEq] at hplace
      exact embeddingOf_vector (h item (List.mem_of_getElem? hitem)) hplace.symm

end EmbeddingsAux

open EmbeddingsAux RemoteEmbeddingProvider

/-! ## The results -/

/-- A batch stays aligned with its texts, whatever the run, if and only if an item of the response has a value in its embedding
array that is no number, or no item has an embedding array, or every item has one and there are as many items as texts. -/
theorem batch_aligned_iff (asF32 : UInt64 → φ) (p : RemoteEmbeddingProvider) (texts : List String) (parsed : Json) :
    BatchAligned asF32 p texts parsed ↔
      (∃ item ∈ responseItems parsed, ∃ values, (item.get? "embedding").bind Json.asArray = some values ∧
        ∃ x ∈ values, x.asF64 = none) ∨
      (∀ item ∈ responseItems parsed, (item.get? "embedding").bind Json.asArray = none) ∨
      ((∀ item ∈ responseItems parsed, (item.get? "embedding").bind Json.asArray ≠ none) ∧
        (responseItems parsed).length = texts.length) := by
  rw [batchAligned_iff]
  constructor
  · intro h
    by_cases hnumeric : ∀ item ∈ responseItems parsed, Numeric asF32 item
    · by_cases hnone : vectors asF32 parsed = []
      · exact Or.inr (Or.inl (vectors_eq_nil_iff.mp hnone))
      · exact Or.inr (Or.inr ((aligned_iff hnumeric).mp (h hnumeric hnone)))
    · exact Or.inl (not_numeric_iff.mp hnumeric)
  · rintro (hbad | hnone | harrays) hnumeric hne
    · exact absurd hnumeric (not_numeric_iff.mpr hbad)
    · exact absurd (vectors_eq_nil_iff.mpr hnone) hne
    · exact (aligned_iff hnumeric).mpr harrays

/-- `f64 as f32`, bits to bits. -/
def roundToF32 (bits : UInt64) : UInt32 := (Float.ofBits bits).toFloat32.toBits

/-- The embedding of the first item is `null`. -/
def withoutFirst : Json :=
  .obj [("data", .arr [.obj [("embedding", .null)], .obj [("embedding", .arr [.float 0x3ff0000000000000])]])]

/-- The response lacks the vector of the first text: the batch is shorter, with the second vector in its place. -/
theorem second_vector_in_first_place :
    ¬ ∀ (p : RemoteEmbeddingProvider) (texts : List String) (parsed : Json), texts ≠ [] →
      BatchAligned roundToF32 p texts parsed := by
  intro h
  obtain ⟨call, hexec⟩ :=
    exec_getEmbeddings roundToF32 ⟨"key", "model", "endpoint"⟩ ["Hello world", "Greetings!"] withoutFirst
  have haligned := h _ _ withoutFirst (List.cons_ne_nil _ _) _ [[roundToF32 0x3ff0000000000000]] hexec
    (List.mem_cons_of_mem _ List.mem_cons_self)
  have hlength := haligned.length
  cases hlength

/-! ## A memory on the provider -/

/-- A call for one text returns the first vector of its batch, or the error of the batch: a batch that is returned is never
empty. -/
theorem exec_getEmbedding {asF32 : UInt64 → φ} {p : RemoteEmbeddingProvider} {text : String} {t : List HttpEvent}
    {r : Except MemoryError (List φ)} :
    Prog.Exec (p.getEmbedding asF32 text) t r ↔
      (∃ e, Prog.Exec (p.getEmbeddings asF32 [text]) t (.error e) ∧ r = .error e) ∨
      ∃ v rest, Prog.Exec (p.getEmbeddings asF32 [text]) t (.ok (v :: rest)) ∧ r = .ok v := by
  constructor
  · intro h
    obtain ⟨t₁, t₂, batch, rfl, hbatch, hret⟩ := Prog.exec_bind.mp h
    cases batch with
    | error e =>
      obtain ⟨rfl, rfl⟩ := Prog.exec_ret.mp hret
      exact Or.inl ⟨e, by rwa [List.append_nil], rfl⟩
    | ok vs =>
      obtain ⟨call, parsed, rfl, hvs, -⟩ := exec_getEmbeddings_ok hbatch
      obtain ⟨-, hne, rfl⟩ := extract_ok_iff.mp hvs
      obtain ⟨v, rest, hcons⟩ := List.exists_cons_of_ne_nil hne
      rw [hcons] at hbatch hret
      obtain ⟨rfl, rfl⟩ := Prog.exec_ret.mp hret
      exact Or.inr ⟨v, rest, by rwa [List.append_nil], rfl⟩
  · rintro (⟨e, hbatch, rfl⟩ | ⟨v, rest, hbatch, rfl⟩)
    · exact Prog.exec_bind.mpr ⟨t, [], _, (List.append_nil t).symm, hbatch, .nil _⟩
    · exact Prog.exec_bind.mpr ⟨t, [], _, (List.append_nil t).symm, hbatch, .nil _⟩

/-- The vector of a text is the embedding array of an item of the response, the first that has one. -/
theorem embedding_of_item {asF32 : UInt64 → φ} {p : RemoteEmbeddingProvider} {text : String} {t : List HttpEvent} {v : List φ}
    (h : Prog.Exec (p.getEmbedding asF32 text) t (.ok v)) :
    ∃ parsed before item after, (⟨.json, .ok parsed⟩ : HttpEvent) ∈ t ∧ responseItems parsed = before ++ item :: after ∧
      (∀ other ∈ before, embeddingArray other = none) ∧ EmbeddingOf asF32 item v := by
  rcases exec_getEmbedding.mp h with ⟨e, -, heq⟩ | ⟨v', rest, hbatch, heq⟩
  · cases heq
  · cases heq
    obtain ⟨call, parsed, rfl, hvs, -⟩ := exec_getEmbeddings_ok hbatch
    obtain ⟨hnumeric, -, hvectors⟩ := extract_ok_iff.mp hvs
    rw [vectors, List.filterMap_eq_cons_iff] at hvectors
    obtain ⟨before, item, after, hitems, hbefore, hv, -⟩ := hvectors
    refine ⟨parsed, before, item, after, List.mem_cons_of_mem _ List.mem_cons_self, hitems, fun other hother => ?_, ?_⟩
    · exact Option.map_eq_none_iff.mp (hbefore other hother)
    · exact embeddingOf_vector (hnumeric item (by rw [hitems]; exact List.mem_append_right _ List.mem_cons_self)) hv

/-- The endpoint answers with a success status, and its body has vectors. -/
def Answered (asF32 : UInt64 → φ) : HttpEvent → Prop
  | ⟨.post _ _ _, .error _⟩ => False
  | ⟨.post _ _ _, .ok status⟩ => status.isSuccess = true
  | ⟨.json, .error _⟩ => False
  | ⟨.json, .ok parsed⟩ => ∃ vs, extractEmbeddings asF32 parsed = .ok vs
  | _ => True

namespace EmbeddingsAux

/-- A batch that is answered does not fail. -/
theorem answered_batch {asF32 : UInt64 → φ} {p : RemoteEmbeddingProvider} {texts : List String} {t : List HttpEvent}
    {e : MemoryError} (h : Prog.Exec (p.getEmbeddings asF32 texts) t (.error e)) : ¬∀ event ∈ t, Answered asF32 event := by
  intro hanswered
  obtain ⟨answer, t₁, rfl, h₁⟩ := Prog.exec_perform.mp h
  obtain ⟨hpost, hrest⟩ := List.forall_mem_cons.mp hanswered
  cases answer with
  | error e' => exact hpost
  | ok status =>
    have hsuccess : status.isSuccess = true := hpost
    simp only [hsuccess, Bool.not_true, Bool.false_eq_true, if_false] at h₁
    obtain ⟨answer, t₂, rfl, h₂⟩ := Prog.exec_perform.mp h₁
    have hjson := hrest _ List.mem_cons_self
    cases answer with
    | error e' => exact hjson
    | ok parsed =>
      obtain ⟨vs, hvs⟩ := hjson
      have hret := (Prog.exec_ret.mp h₂).2
      rw [hvs] at hret
      cases hret

/-- While the endpoint answers, the calls for an embedding succeed. -/
theorem embedded_of_answered {asF32 : UInt64 → φ} {p : RemoteEmbeddingProvider} {us : List (Event (MemoryCall.Answer φ))}
    {ts : List HttpEvent} (hserves : Prog.Serves (p.serve asF32) us ts) (hanswered : ∀ event ∈ ts, Answered asF32 event) :
    ∀ u ∈ us, Embedded u := by
  induction hserves with
  | nil => exact fun u hu => by cases hu
  | @cons c r t us ts hexec hserves ih =>
    obtain ⟨hthis, hrest⟩ := List.forall_mem_append.mp hanswered
    refine List.forall_mem_cons.mpr ⟨?_, ih hrest⟩
    cases c with
    | systemTimeNow => trivial
    | getEmbedding text =>
      cases r with
      | ok v => trivial
      | error e =>
        rcases exec_getEmbedding.mp hexec with ⟨e', hbatch, -⟩ | ⟨v, rest, -, heq⟩
        · exact answered_batch hbatch hthis
        · cases heq

end EmbeddingsAux

/-- While the endpoint answers every batch, a conversation stays whole in a memory that runs on the provider. -/
theorem conversation_kept_on_provider (asF32 : UInt64 → φ) (p : RemoteEmbeddingProvider) (maxMessages : Nat)
    (ops : List Operation) (hops : ∀ op ∈ ops, op.isFact = false) {t : List HttpEvent} {m : AgentMemorySystem φ}
    (h : Prog.Exec ((session (AgentMemorySystem.new maxMessages) ops).handle (p.serve asF32)) t m)
    (hanswered : ∀ event ∈ t, Answered asF32 event) :
    bodies m.summaries ++ rendering (said m.shortTerm.messages) = rendering (ops.flatMap Operation.spoken) := by
  obtain ⟨us, hsession, hserves⟩ := Prog.exec_handle.mp h
  have hembedded := embedded_of_answered hserves hanswered
  have hconserved := (ConsolidationAux.conserved_new maxMessages).session hops hsession hembedded
  simpa using hconserved.text

end ChainBridge.AgentMemory
