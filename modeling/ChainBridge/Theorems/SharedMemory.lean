import ChainBridge.Lemmas.AgentMemory
import ChainBridge.Lib.Serial
import ChainBridge.MemoryTasks
import ChainBridge.Theorems.Recall

/-!
# The agent's memory is shared safely

Whatever calls of the memory run side by side, in whatever interleaving and with whatever tasks dropped, they are carried out
one after the other: the memory is that of the calls in the order in which they gave up their first guard, and every result is
the one the call returns there. So what `AgentMemory` says of sequences of calls holds of every run of tasks.
-/

namespace ChainBridge.AgentMemory

open Interleave TopK

namespace SharedAux

variable {φ σ : Type} [LinearOrder σ] {F : Floats φ σ}

/-! ## Discipline -/

/-- Asking takes no lock and gives up none. -/
theorem disciplined_asking {α β : Type} {p : MemoryProg φ α} {f : α → MemoryTask φ β} {g : Grip MemoryLock}
    {Q : Grip MemoryLock → β → Prop}
    (h : ∀ a, (f a).wp (discipline (MemoryLock.Data φ) (TaskCall.Answer φ) false) g Q) :
    (asking p >>= f).wp (discipline (MemoryLock.Data φ) (TaskCall.Answer φ) false) g Q := by
  induction p with
  | ret a => exact h a
  | call c k ih => exact ⟨trivial, fun a => ih a⟩

/-- The memory's locks as the discipline sees them. -/
abbrev memoryDiscipline (φ : Type) : Monitor (LockCall MemoryLock (MemoryLock.Data φ) (TaskCall φ))
    (LockCall.Answer (TaskCall.Answer φ)) (Grip MemoryLock) :=
  discipline (MemoryLock.Data φ) (TaskCall.Answer φ) false

/-- The end of a task: its guard is dropped, and it returns. -/
theorem disciplined_finish {l : MemoryLock} (result : MemoryResult φ) :
    (do unlock l; reply result : MemoryTask φ Unit).wp (memoryDiscipline φ) ⟨[(l, .exclusive)], false⟩
      (fun g _ => g.held = []) :=
  ⟨⟨_, List.mem_cons_self⟩, fun _ => ⟨trivial, fun _ => show List.filter _ _ = [] by simp⟩⟩

/-- A task that takes one guard, changes what it guards in one go, and returns. -/
theorem disciplined_edit {l : MemoryLock} {f : l.Data φ → MemoryTask φ Unit}
    (h : ∀ d, (f d).wp (memoryDiscipline φ) ⟨[(l, .exclusive)], false⟩ (fun g _ => g.held = [])) :
    (write l >>= fun _ => deref l >>= f).wp (memoryDiscipline φ) ⟨[], false⟩ (fun g _ => g.held = []) := by
  refine ⟨⟨fun h => (by cases h), fun h hh => (by cases hh)⟩, fun _ => ⟨⟨rfl, _, List.mem_cons_self⟩, fun d => h d⟩⟩

theorem disciplined_consolidateDigest (truncated : List Message) :
    (consolidateDigest truncated : MemoryTask φ Unit).wp (memoryDiscipline φ) ⟨[(.shortTerm, .exclusive)], false⟩
      (fun g _ => g.held = []) := by
  refine ⟨trivial, fun answer => ?_⟩
  cases answer with
  | error e => exact disciplined_finish _
  | ok embedding =>
    refine ⟨trivial, fun id => ⟨trivial, fun now => ⟨⟨fun h => (by cases h), fun h hh => ?_⟩, fun _ =>
      ⟨⟨rfl, _, List.mem_cons_self⟩, fun lt => ⟨⟨rfl, List.mem_cons_self⟩, fun _ =>
        ⟨⟨_, List.mem_cons_self⟩, fun _ => disciplined_finish _⟩⟩⟩⟩⟩⟩
    rw [List.mem_singleton.mp hh]
    exact ⟨rfl, rfl⟩

theorem disciplined_consolidateHeld (keepRecent : Nat) (st : ShortTermMemory) :
    (consolidateHeld keepRecent st : MemoryTask φ Unit).wp (memoryDiscipline φ) ⟨[(.shortTerm, .exclusive)], false⟩
      (fun g _ => g.held = []) := by
  unfold consolidateHeld
  split
  · exact disciplined_finish _
  · refine (Prog.wp_perform_bind ..).mpr ⟨⟨rfl, List.mem_cons_self⟩, fun _ => ?_⟩
    split
    · exact disciplined_finish _
    · exact disciplined_consolidateDigest _

/-- Every task takes its guards once, the long-term memory's after the short-term memory's, and drops them. -/
theorem disciplined_task (request : MemoryRequest φ) : Disciplined false (request.task F) := by
  cases request with
  | addMessage role content metadata =>
    refine ⟨⟨fun h => (by cases h), fun h hh => (by cases hh)⟩, fun _ => ⟨trivial, fun now => ⟨⟨rfl, _, List.mem_cons_self⟩,
      fun st => ⟨⟨rfl, List.mem_cons_self⟩, fun _ => disciplined_finish _⟩⟩⟩⟩
  | rememberFact fact tags metadata =>
    refine ⟨trivial, fun answer => ?_⟩
    cases answer with
    | error e => exact ⟨trivial, fun _ => rfl⟩
    | ok embedding =>
      refine ⟨trivial, fun id => ⟨trivial, fun now => disciplined_edit fun lt => ?_⟩⟩
      exact ⟨⟨rfl, List.mem_cons_self⟩, fun _ => disciplined_finish _⟩
  | recallEntries query limit minScore =>
    refine ⟨trivial, fun answer => ?_⟩
    cases answer with
    | error e => exact ⟨trivial, fun _ => rfl⟩
    | ok queryEmbedding =>
      refine disciplined_edit fun lt => disciplined_asking fun lt' => ?_
      exact ⟨⟨rfl, List.mem_cons_self⟩, fun _ => disciplined_finish _⟩
  | consolidate keepRecent => exact disciplined_edit fun st => disciplined_consolidateHeld keepRecent st

/-! ## A task by itself -/

/-- An outside call of a task, with its answer. -/
abbrev TaskEvent (φ : Type) : Type := Event (TaskCall.Answer φ)

/-- The task has not returned. -/
def Unreplied (es : List (TaskEvent φ)) : Prop := ∀ result, ⟨.reply result, ()⟩ ∉ es

/-- What a task has come to alone, from a memory: it has done nothing and not returned, or it has done what the call by itself
does, on answers the call may get, and what it returned is what the call returns. -/
def Explained (F : Floats φ σ) (request : MemoryRequest φ) (m : AgentMemorySystem φ) (es : List (TaskEvent φ))
    (data : (l : MemoryLock) → l.Data φ) : Prop :=
  (Unreplied es ∧ memoryOf data = m) ∨ ∃ us result, Prog.Exec (request.run F m) us (result, memoryOf data) ∧
    ∀ result', ⟨.reply result', ()⟩ ∈ es → result' = result

variable {request : MemoryRequest φ} {m : AgentMemorySystem φ} {es : List (TaskEvent φ)} {data : (l : MemoryLock) → l.Data φ}

/-- A task that has done its work has still to return. -/
theorem explained_of_exec {us : List (Event (MemoryCall.Answer φ))} {result : MemoryResult φ} (hes : Unreplied es)
    (h : Prog.Exec (request.run F m) us (result, memoryOf data)) : Explained F request m es data :=
  Or.inr ⟨us, result, h, fun result' hmem => (hes result' hmem).elim⟩

theorem unreplied_ask {c : MemoryCall} {a : c.Answer φ} (hes : Unreplied es) : Unreplied (es ++ [⟨.ask c, a⟩]) := by
  intro result hmem
  rcases List.mem_append.mp hmem with hmem | hmem
  · exact hes result hmem
  · cases List.mem_singleton.mp hmem

/-- A task that has done its work returns what the call by itself returns. -/
theorem alone_reply {us : List (Event (MemoryCall.Answer φ))} {result : MemoryResult φ} (hes : Unreplied es)
    (h : Prog.Exec (request.run F m) us (result, memoryOf data)) :
    Alone (Explained F request m) (reply result) es data := by
  refine ⟨explained_of_exec hes h, fun _ => Or.inr ⟨us, result, h, fun result' hmem => ?_⟩⟩
  rcases List.mem_append.mp hmem with hmem | hmem
  · exact (hes result' hmem).elim
  · cases List.mem_singleton.mp hmem
    rfl

/-- The end of a task that has done its work: its guard is dropped, and it returns. -/
theorem alone_finish {l : MemoryLock} {us : List (Event (MemoryCall.Answer φ))} {result : MemoryResult φ} (hes : Unreplied es)
    (h : Prog.Exec (request.run F m) us (result, memoryOf data)) :
    Alone (Explained F request m) (do unlock l; reply result : MemoryTask φ Unit) es data :=
  ⟨explained_of_exec hes h, fun _ => alone_reply hes h⟩

theorem memoryOf_shortTerm (st : ShortTermMemory) :
    memoryOf (Function.update data .shortTerm st) = { memoryOf data with shortTerm := st } := by
  simp [memoryOf]

theorem memoryOf_longTerm (lt : LongTermMemory φ) :
    memoryOf (Function.update data .longTerm lt) = { memoryOf data with longTerm := lt } := by
  simp [memoryOf]

theorem unreplied_nil : Unreplied ([] : List (TaskEvent φ)) := fun result hmem => by cases hmem

theorem alone_addMessage (role : MessageRole) (content : String) (metadata : Metadata) :
    Alone (Explained F (.addMessage role content metadata) (memoryOf data)) (addMessageTask role content metadata) [] data := by
  refine ⟨Or.inl ⟨unreplied_nil, rfl⟩, fun _ => ⟨Or.inl ⟨unreplied_nil, rfl⟩, fun now => ?_⟩⟩
  have hnow := unreplied_ask (φ := φ) (c := .systemTimeNow) (a := now) unreplied_nil
  refine ⟨Or.inl ⟨hnow, rfl⟩, fun _ => ⟨Or.inl ⟨hnow, rfl⟩, fun _ => ?_⟩⟩
  have hexec : Prog.Exec ((MemoryRequest.addMessage role content metadata).run F (memoryOf data)) [⟨.systemTimeNow, now⟩]
      (.added, memoryOf (Function.update data .shortTerm ((data .shortTerm).addMessage role content metadata now))) := by
    rw [memoryOf_shortTerm]
    exact .cons _ _ (.nil _)
  exact alone_finish hnow hexec

/-- The last part of a task that has a new entry for the long-term memory: take the guard, insert the entry, and return. -/
theorem alone_rememberFact (fact : String) (tags : List String) (metadata : Metadata) :
    Alone (Explained F (.rememberFact fact tags metadata) (memoryOf data)) (rememberFactTask fact tags metadata) [] data := by
  refine ⟨Or.inl ⟨unreplied_nil, rfl⟩, fun answer => ?_⟩
  have hanswer := unreplied_ask (φ := φ) (c := .getEmbedding fact) (a := answer) unreplied_nil
  cases answer with
  | error e =>
    have hexec : Prog.Exec ((MemoryRequest.rememberFact fact tags metadata).run F (memoryOf data)) [⟨.getEmbedding fact, .error e⟩]
        (.remembered (.error e), memoryOf data) := .cons _ _ (.nil _)
    exact alone_reply hanswer hexec
  | ok embedding =>
    refine ⟨Or.inl ⟨hanswer, rfl⟩, fun idTime => ?_⟩
    have hid := unreplied_ask (φ := φ) (c := .systemTimeNow) (a := idTime) hanswer
    refine ⟨Or.inl ⟨hid, rfl⟩, fun now => ?_⟩
    have hnow := unreplied_ask (φ := φ) (c := .systemTimeNow) (a := now) hid
    refine ⟨Or.inl ⟨hnow, rfl⟩, fun _ => ⟨Or.inl ⟨hnow, rfl⟩, fun _ => ⟨Or.inl ⟨hnow, rfl⟩, fun _ => ?_⟩⟩⟩
    have hexec : Prog.Exec ((MemoryRequest.rememberFact fact tags metadata).run F (memoryOf data))
        [⟨.getEmbedding fact, .ok embedding⟩, ⟨.systemTimeNow, idTime⟩, ⟨.systemTimeNow, now⟩]
        (.remembered (.ok (uuidV4Placeholder idTime)), memoryOf (Function.update data .longTerm ((data .longTerm).insert
          { id := uuidV4Placeholder idTime, content := fact, embedding, createdAtMs := currentTimeMs now,
            lastAccessedAtMs := currentTimeMs now, accessCount := 1, tags, metadata }))) := by
      rw [memoryOf_longTerm]
      exact .cons _ _ (.cons _ _ (.cons _ _ (.nil _)))
    exact alone_finish hnow hexec

/-- A part that only asks, and what follows it. -/
theorem alone_asking {α : Type} {P : List (TaskEvent φ) → ((l : MemoryLock) → l.Data φ) → Prop} {p : MemoryProg φ α}
    {f : α → MemoryTask φ Unit} (hP : ∀ es, Unreplied es → P es data) (hes : Unreplied es)
    (hf : ∀ t a es', Prog.Exec p t a → Unreplied es' → Alone P (f a) es' data) : Alone P (asking p >>= f) es data := by
  induction p generalizing es with
  | ret a => exact hf [] a es (.nil _) hes
  | call c k ih =>
    refine ⟨hP es hes, fun a => ih a (unreplied_ask hes) fun t b es' hexec hes' => ?_⟩
    exact hf (⟨c, a⟩ :: t) b es' (Prog.Steps.cons (ρ := MemoryCall.Answer φ) c a hexec) hes'

theorem alone_recall (query : String) (limit : Nat) (minScore : φ) :
    Alone (Explained F (.recallEntries query limit minScore) (memoryOf data)) (recallTask F query limit minScore) [] data := by
  refine ⟨Or.inl ⟨unreplied_nil, rfl⟩, fun answer => ?_⟩
  have hanswer := unreplied_ask (φ := φ) (c := .getEmbedding query) (a := answer) unreplied_nil
  cases answer with
  | error e =>
    have hexec : Prog.Exec ((MemoryRequest.recallEntries query limit minScore).run F (memoryOf data))
        [⟨.getEmbedding query, .error e⟩] (.recalled (.error e), memoryOf data) := .cons _ _ (.nil _)
    exact alone_reply hanswer hexec
  | ok queryEmbedding =>
    refine ⟨Or.inl ⟨hanswer, rfl⟩, fun _ => ⟨Or.inl ⟨hanswer, rfl⟩, fun _ => ?_⟩⟩
    refine alone_asking (fun es hes => Or.inl ⟨hes, rfl⟩) hanswer fun t lt es' htouch hes' => ?_
    refine ⟨Or.inl ⟨hes', rfl⟩, fun _ => ?_⟩
    have hexec : Prog.Exec ((MemoryRequest.recallEntries query limit minScore).run F (memoryOf data))
        (⟨.getEmbedding query, .ok queryEmbedding⟩ :: t)
        (.recalled (.ok ((data .longTerm).query F queryEmbedding limit minScore)),
          memoryOf (Function.update data .longTerm lt)) := by
      rw [memoryOf_longTerm]
      refine Prog.exec_bind.mpr ⟨_, [], (_, _), (List.append_nil _).symm, ?_, .nil _⟩
      exact Prog.exec_perform_cons.mpr (Prog.exec_bind.mpr ⟨t, [], lt, (List.append_nil t).symm, htouch, .nil _⟩)
    exact alone_finish hes' hexec

/-- The call by itself, from what `consolidate` does. -/
theorem exec_run_consolidate {keepRecent : Nat} {t : List (Event (MemoryCall.Answer φ))}
    {r : Except MemoryError (Option String)} {m' : AgentMemorySystem φ}
    (h : Prog.Exec (m.consolidate keepRecent) t (r, m')) :
    Prog.Exec ((MemoryRequest.consolidate keepRecent).run F m) t (.consolidated r, m') :=
  Prog.exec_bind.mpr ⟨t, [], (r, m'), (List.append_nil t).symm, h, .nil _⟩

/-- The end of `consolidate`: an error leaves the older messages cut off. -/
theorem alone_consolidateDigest {keepRecent : Nat} (hdue : m.Due keepRecent) (hdata : memoryOf data = m.dropOlder keepRecent) :
    Alone (Explained F (.consolidate keepRecent) m) (consolidateDigest (m.older keepRecent)) [] data := by
  have hfailed : ∀ e, Prog.Exec ((MemoryRequest.consolidate keepRecent).run F m) _ (.consolidated (.error e), memoryOf data) :=
    fun e => exec_run_consolidate (AgentMemorySystem.exec_consolidate.mpr (Or.inr (Or.inl ⟨hdue, e, rfl, rfl, hdata⟩)))
  have hbegun : ∀ es, Unreplied es → Explained F (.consolidate keepRecent) m es data := fun es hes =>
    explained_of_exec hes (hfailed (.internal ""))
  refine ⟨hbegun _ unreplied_nil, fun answer => ?_⟩
  have hanswer := unreplied_ask (φ := φ) (c := .getEmbedding (digest (m.older keepRecent))) (a := answer) unreplied_nil
  cases answer with
  | error e => exact alone_finish hanswer (hfailed e)
  | ok embedding =>
    refine ⟨hbegun _ hanswer, fun idTime => ?_⟩
    have hid := unreplied_ask (φ := φ) (c := .systemTimeNow) (a := idTime) hanswer
    refine ⟨hbegun _ hid, fun now => ?_⟩
    have hnow := unreplied_ask (φ := φ) (c := .systemTimeNow) (a := now) hid
    refine ⟨hbegun _ hnow, fun _ => ⟨hbegun _ hnow, fun _ => ⟨hbegun _ hnow, fun _ => ?_⟩⟩⟩
    have hexec := exec_run_consolidate (F := F) (AgentMemorySystem.exec_consolidate.mpr
      (Or.inr (Or.inr ⟨hdue, embedding, idTime, now, rfl, rfl, rfl⟩)))
    rw [← hdata, AgentMemorySystem.inserted, ← memoryOf_longTerm] at hexec
    exact ⟨explained_of_exec hnow hexec, fun _ => alone_finish hnow hexec⟩

theorem alone_consolidate (keepRecent : Nat) :
    Alone (Explained F (.consolidate keepRecent) (memoryOf data)) (consolidateTask keepRecent) [] data := by
  have hidle : ¬(memoryOf data).Due keepRecent → Prog.Exec ((MemoryRequest.consolidate keepRecent).run F (memoryOf data)) []
      (.consolidated (.ok none), memoryOf data) := fun hdue =>
    exec_run_consolidate (AgentMemorySystem.exec_consolidate.mpr (Or.inl ⟨hdue, rfl, rfl, rfl⟩))
  refine ⟨Or.inl ⟨unreplied_nil, rfl⟩, fun _ => ⟨Or.inl ⟨unreplied_nil, rfl⟩, fun _ => ?_⟩⟩
  show Alone _ (consolidateHeld keepRecent (data .shortTerm)) [] data
  unfold consolidateHeld
  split
  · rename_i hneeds
    refine alone_finish unreplied_nil (hidle fun hdue => ?_)
    rw [Bool.not_eq_true', ShortTermMemory.needsConsolidation, decide_eq_false_iff_not] at hneeds
    exact hneeds hdue.1
  rename_i hneeds
  by_cases hlen : (data .shortTerm).messages.length ≤ keepRecent
  · have hcut : (data .shortTerm).truncateOlder keepRecent = ([], data .shortTerm) := if_pos hlen
    have hsame : Function.update data .shortTerm (data .shortTerm) = data := Function.update_eq_self ..
    have hexec := hidle fun hdue => Nat.not_lt.mpr hlen hdue.2
    rw [hcut]
    refine ⟨Or.inl ⟨unreplied_nil, rfl⟩, fun _ => ?_⟩
    show Alone _ (do unlock .shortTerm; reply (.consolidated (.ok none))) [] (Function.update data .shortTerm (data .shortTerm))
    rw [hsame]
    exact alone_finish unreplied_nil hexec
  · have hdue : (memoryOf data).Due keepRecent := by
      rw [Bool.not_eq_true', Bool.not_eq_false, ShortTermMemory.needsConsolidation, decide_eq_true_eq] at hneeds
      exact ⟨hneeds, Nat.lt_of_not_le hlen⟩
    have hcut : (data .shortTerm).truncateOlder keepRecent =
        ((memoryOf data).older keepRecent, ((memoryOf data).dropOlder keepRecent).shortTerm) := if_neg hlen
    have holder : ((memoryOf data).older keepRecent).isEmpty = false := by
      have hlt := hdue.2
      rw [List.isEmpty_eq_false_iff, ← List.length_pos_iff, AgentMemorySystem.older, List.length_take]
      omega
    rw [hcut]
    refine ⟨Or.inl ⟨unreplied_nil, rfl⟩, fun _ => ?_⟩
    show Alone _ (if ((memoryOf data).older keepRecent).isEmpty then _ else _) [] _
    rw [holder]
    exact alone_consolidateDigest hdue (memoryOf_shortTerm _)

/-- A task by itself, from any memory. -/
theorem alone_task (request : MemoryRequest φ) :
    Alone (Explained F request (memoryOf data)) (request.task F) [] data := by
  cases request with
  | addMessage role content metadata => exact alone_addMessage role content metadata
  | rememberFact fact tags metadata => exact alone_rememberFact fact tags metadata
  | recallEntries query limit minScore => exact alone_recall query limit minScore
  | consolidate keepRecent => exact alone_consolidate keepRecent

/-- What a task came to, whose calls fit the memory when they are made in a row: it did nothing and did not return, or it did
what the call by itself does. -/
theorem explained_of_steps {t : List (LockEvent (MemoryLock.Data φ) (TaskCall.Answer φ))} {q : MemoryTask φ Unit}
    (hs : Prog.Steps (request.task F) t q) (hfits : Fits data t) :
    ((∀ result, ⟨.outside (.reply result), ()⟩ ∉ t) ∧ memoryOf (dataAfter data t) = memoryOf data) ∨
      ∃ us result, Prog.Exec (request.run F (memoryOf data)) us (result, memoryOf (dataAfter data t)) ∧
        ∀ result', ⟨.outside (.reply result'), ()⟩ ∈ t → result' = result := by
  rcases alone_steps (alone_task request) hs hfits with ⟨hnone, hdata⟩ | ⟨us, result, hexec, hreply⟩
  · exact Or.inl ⟨fun result hmem => hnone result (mem_outsideAfter hmem), hdata⟩
  · exact Or.inr ⟨us, result, hexec, fun result' hmem => hreply result' (mem_outsideAfter hmem)⟩

/-! ## The end of a task -/

/-- The monitor that allows no call after the reply. -/
def replyLast (φ : Type) : Monitor (LockCall MemoryLock (MemoryLock.Data φ) (TaskCall φ))
    (LockCall.Answer (TaskCall.Answer φ)) Bool where
  allow replied _ := replied = false
  next replied c _ := replied || match c with
    | .outside (.reply _) => true
    | _ => false

theorem replyLast_asking {α β : Type} {p : MemoryProg φ α} {f : α → MemoryTask φ β} {Q : Bool → β → Prop}
    (h : ∀ a, (f a).wp (replyLast φ) false Q) : (asking p >>= f).wp (replyLast φ) false Q := by
  induction p with
  | ret a => exact h a
  | call c k ih => exact ⟨rfl, fun a => ih a⟩

theorem replyLast_finish {l : MemoryLock} (result : MemoryResult φ) :
    (do unlock l; reply result : MemoryTask φ Unit).wp (replyLast φ) false (fun _ _ => True) :=
  ⟨rfl, fun _ => ⟨rfl, fun _ => trivial⟩⟩

theorem replyLast_consolidateDigest (truncated : List Message) :
    (consolidateDigest truncated : MemoryTask φ Unit).wp (replyLast φ) false (fun _ _ => True) := by
  refine ⟨rfl, fun answer => ?_⟩
  cases answer with
  | error e => exact replyLast_finish _
  | ok embedding =>
    exact ⟨rfl, fun id => ⟨rfl, fun now => ⟨rfl, fun _ => ⟨rfl, fun lt => ⟨rfl, fun _ => ⟨rfl, fun _ =>
      replyLast_finish _⟩⟩⟩⟩⟩⟩

theorem replyLast_consolidateHeld (keepRecent : Nat) (st : ShortTermMemory) :
    (consolidateHeld keepRecent st : MemoryTask φ Unit).wp (replyLast φ) false (fun _ _ => True) := by
  unfold consolidateHeld
  split
  · exact replyLast_finish _
  · refine (Prog.wp_perform_bind ..).mpr ⟨rfl, fun _ => ?_⟩
    split
    · exact replyLast_finish _
    · exact replyLast_consolidateDigest _

/-- Every task makes its reply last. -/
theorem replyLast_task (request : MemoryRequest φ) : (request.task F).wp (replyLast φ) false (fun _ _ => True) := by
  cases request with
  | addMessage role content metadata =>
    exact ⟨rfl, fun _ => ⟨rfl, fun now => ⟨rfl, fun st => ⟨rfl, fun _ => replyLast_finish _⟩⟩⟩⟩
  | rememberFact fact tags metadata =>
    refine ⟨rfl, fun answer => ?_⟩
    cases answer with
    | error e => exact ⟨rfl, fun _ => trivial⟩
    | ok embedding =>
      exact ⟨rfl, fun id => ⟨rfl, fun now => ⟨rfl, fun _ => ⟨rfl, fun lt => ⟨rfl, fun _ => replyLast_finish _⟩⟩⟩⟩⟩
  | recallEntries query limit minScore =>
    refine ⟨rfl, fun answer => ?_⟩
    cases answer with
    | error e => exact ⟨rfl, fun _ => trivial⟩
    | ok queryEmbedding =>
      exact ⟨rfl, fun _ => ⟨rfl, fun lt => replyLast_asking fun lt' => ⟨rfl, fun _ => replyLast_finish _⟩⟩⟩
  | consolidate keepRecent => exact ⟨rfl, fun _ => ⟨rfl, fun st => replyLast_consolidateHeld keepRecent st⟩⟩

theorem after_replyLast {t : List (LockEvent (MemoryLock.Data φ) (TaskCall.Answer φ))} {result : MemoryResult φ}
    (h : ⟨.outside (.reply result), ()⟩ ∈ t) (replied : Bool) : (replyLast φ).after replied t = true := by
  have hstays : ∀ t : List (LockEvent (MemoryLock.Data φ) (TaskCall.Answer φ)), (replyLast φ).after true t = true := by
    intro t
    induction t with
    | nil => rfl
    | cons e t ih => exact ih
  obtain ⟨t₁, t₂, rfl⟩ := List.append_of_mem h
  have hhere : ∀ b : Bool, (b || true) = true := Bool.or_true
  simp only [Monitor.after, List.foldl_append, List.foldl_cons, replyLast, hhere]
  exact hstays t₂

/-- A task that replied is done. -/
theorem done_of_reply {t : List (LockEvent (MemoryLock.Data φ) (TaskCall.Answer φ))} {q : MemoryTask φ Unit}
    (hs : Prog.Steps (request.task F) t q) {result : MemoryResult φ} (h : ⟨.outside (.reply result), ()⟩ ∈ t) : q = .ret () := by
  have hwp := Prog.wp_steps (replyLast_task request) hs
  cases q with
  | ret a => rfl
  | call c k =>
    have hallow : (replyLast φ).after false t = false := hwp.1
    rw [after_replyLast h] at hallow
    cases hallow

/-- A task that replied makes no more calls. -/
theorem eq_nil_of_reply {t u : List (LockEvent (MemoryLock.Data φ) (TaskCall.Answer φ))} {q : MemoryTask φ Unit}
    (hs : Prog.Steps (request.task F) (t ++ u) q) {result : MemoryResult φ} (h : ⟨.outside (.reply result), ()⟩ ∈ t) :
    u = [] := by
  cases u with
  | nil => rfl
  | cons e u =>
    have hallow : (replyLast φ).after false t = false := Prog.wp_allow (replyLast_task request) hs
    rw [after_replyLast h] at hallow
    cases hallow

end SharedAux

open SharedAux

section Serially

variable {φ σ : Type} [LinearOrder σ]

/-- Calls carried out one after the other take one memory to another and return these results. -/
inductive Serially (F : Floats φ σ) :
    AgentMemorySystem φ → List (Nat × MemoryRequest φ × MemoryResult φ) → AgentMemorySystem φ → Prop where
  | nil (m : AgentMemorySystem φ) : Serially F m [] m
  | cons (t : Nat) {request : MemoryRequest φ} {result : MemoryResult φ} {m m₁ m₂ : AgentMemorySystem φ}
      {us : List (Event (MemoryCall.Answer φ))} {calls : List (Nat × MemoryRequest φ × MemoryResult φ)} :
      Prog.Exec (request.run F m) us (result, m₁) → Serially F m₁ calls m₂ →
      Serially F m ((t, request, result) :: calls) m₂

/-- A task returned a result. -/
def Returned (log : List (LockLabel (MemoryLock.Data φ) (TaskCall.Answer φ) (MemoryRequest φ))) (t : Nat)
    (result : MemoryResult φ) : Prop :=
  .call t ⟨.outside (.reply result), ()⟩ ∈ log

/-- A task returned before another was started. -/
def Before (x : MemoryTasks φ) (t u : Nat) : Prop :=
  ∃ log log', x.log = log ++ log' ∧ (∃ result, Returned log t result) ∧ ∀ request, .deliver u request ∉ log

namespace SharedAux

variable {F : Floats φ σ} {x : MemoryTasks φ} {m₀ : AgentMemorySystem φ}

/-- Tasks whose calls, made in a row, fit the memory: those that did anything are calls carried out one after the other. -/
theorem serially_of_fits {ts : List Nat} (hts : ∀ t ∈ ts, ∃ request q, .deliver t request ∈ x.log ∧
      Prog.Steps (MemoryRequest.task F request) (traceOf t x.log) q) {data : (l : MemoryLock) → l.Data φ}
    (hfits : Fits data (ts.flatMap fun t => traceOf t x.log)) :
    ∃ calls, (calls.map (·.1)).Sublist ts ∧ (∀ c ∈ calls, .deliver c.1 c.2.1 ∈ x.log ∧ ¬NoAccess (traceOf c.1 x.log)) ∧
      Serially F (memoryOf data) calls (memoryOf (dataAfter data (ts.flatMap fun t => traceOf t x.log))) ∧
      ∀ t ∈ ts, ¬NoAccess (traceOf t x.log) → ∀ result, Returned x.log t result → ∃ request, (t, request, result) ∈ calls := by
  induction ts generalizing data with
  | nil => exact ⟨[], .slnil, fun c hc => (by cases hc), .nil _, fun t ht => (by cases ht)⟩
  | cons t ts ih =>
    obtain ⟨⟨request, q, hdelivered, hsteps⟩, hts⟩ := List.forall_mem_cons.mp hts
    rw [List.flatMap_cons, fits_append] at hfits
    obtain ⟨calls, hsub, hdel, hserial, hreturned⟩ := ih hts hfits.2
    rw [List.flatMap_cons, dataAfter_append]
    by_cases hquiet : NoAccess (traceOf t x.log)
    · rw [dataAfter_of_noAccess hquiet] at hserial ⊢
      refine ⟨calls, hsub.cons t, hdel, hserial, fun u hu hbusy result hmem => ?_⟩
      rcases List.mem_cons.mp hu with rfl | hu
      · exact (hbusy hquiet).elim
      · exact hreturned u hu hbusy result hmem
    rcases explained_of_steps hsteps hfits.1 with ⟨hnone, hsame⟩ | ⟨us, result, hexec, hreply⟩
    · refine ⟨calls, hsub.cons t, hdel, hsame ▸ hserial, fun u hu hbusy result hmem => ?_⟩
      rcases List.mem_cons.mp hu with rfl | hu
      · exact (hnone result (Pool.mem_traceOf.mpr hmem)).elim
      · exact hreturned u hu hbusy result hmem
    · refine ⟨(t, request, result) :: calls, hsub.cons_cons t, List.forall_mem_cons.mpr ⟨⟨hdelivered, hquiet⟩, hdel⟩,
        .cons t hexec hserial, fun u hu hbusy result' hmem => ?_⟩
      rcases List.mem_cons.mp hu with rfl | hu
      · rw [hreply result' (Pool.mem_traceOf.mpr hmem)]
        exact ⟨request, List.mem_cons_self⟩
      · obtain ⟨request', hmem'⟩ := hreturned u hu hbusy result' hmem
        exact ⟨request', List.mem_cons_of_mem _ hmem'⟩

/-- A task that returned was begun. -/
theorem begun_of_returned (h : Locked.Reach (MemoryRequest.task F) (Locked.init (behindLocks m₀)) x) {t : Nat}
    {result : MemoryResult φ} (hresult : Returned x.log t result) :
    ∃ request q, .deliver t request ∈ x.log ∧ Prog.Steps (MemoryRequest.task F request) (traceOf t x.log) q ∧
      x.threads t = some (request, .ret ()) := by
  have hmem := Pool.mem_traceOf.mpr hresult
  cases hthread : x.threads t with
  | none =>
    rw [(h.begun t).1 hthread] at hmem
    cases hmem
  | some th =>
    obtain ⟨request, q⟩ := th
    obtain ⟨hdelivered, q', hsteps, hq⟩ := (h.begun t).2 request q hthread
    have hdone := done_of_reply hsteps hmem
    have hret : q = .ret () := hq.elim (fun h => h.trans hdone) id
    exact ⟨request, q', hdelivered, hsteps, by rw [hret]⟩

/-- A task that returned without having seen the memory returned what the call returns on any memory. -/
theorem returned_of_quiet (h : Locked.Reach (MemoryRequest.task F) (Locked.init (behindLocks m₀)) x) {t : Nat}
    {result : MemoryResult φ} (hresult : Returned x.log t result) (hquiet : NoAccess (traceOf t x.log)) :
    ∃ request, .deliver t request ∈ x.log ∧ ∀ m, ∃ us, Prog.Exec (MemoryRequest.run F m request) us (result, m) := by
  have hmem := Pool.mem_traceOf.mpr hresult
  obtain ⟨request, q, hdelivered, hsteps, -⟩ := begun_of_returned h hresult
  refine ⟨request, hdelivered, fun m => ?_⟩
  have halone := explained_of_steps hsteps (fits_of_noAccess hquiet (behindLocks m))
  rw [dataAfter_of_noAccess hquiet] at halone
  rcases halone with ⟨hnone, -⟩ | ⟨us, result', hexec, hreply⟩
  · exact (hnone result hmem).elim
  · rw [hreply result hmem]
    exact ⟨us, hexec⟩

/-- A task that returned before another was started comes before it, if both did anything. -/
theorem commitOrder_of_before (h : Locked.Reach (MemoryRequest.task F) (Locked.init (behindLocks m₀)) x) {t u : Nat}
    (hbefore : Before x t u) (hbusy : ¬NoAccess (traceOf t x.log)) : ¬[u, t].Sublist (commitOrder x.log) := by
  obtain ⟨log, log', hlog, ⟨result, hresult⟩, hu⟩ := hbefore
  refine h.commitOrder_of_not_begun disciplined_task hlog ?_ hu
  by_contra hnot
  obtain ⟨x₁, hr, rfl⟩ := h.of_append hlog
  obtain ⟨request, _, -, -, hdone⟩ := begun_of_returned hr hresult
  have hquiet := hr.quiet_of_free disciplined_task hnot (hr.free_of_done disciplined_task hdone)
  have hlater : Returned x.log t result := hlog ▸ List.mem_append_left _ hresult
  obtain ⟨_, _, -, hsteps, -⟩ := begun_of_returned h hlater
  rw [hlog, Pool.traceOf_append] at hsteps hbusy
  rw [eq_nil_of_reply hsteps (Pool.mem_traceOf.mpr hresult), List.append_nil] at hbusy
  exact hbusy hquiet

end SharedAux

/-- Whatever calls of the memory run side by side and whatever tasks are dropped, at any moment when no guard is held there are
calls among those made that carried out one after the other lead to the memory as it is. A task that returned is among them
with its result, or it returned what the call returns on any memory without changing it; and a call that returned before
another was made comes before it. -/
theorem memory_shared_safely {F : Floats φ σ} {m₀ : AgentMemorySystem φ} {x : MemoryTasks φ}
    (h : Locked.Reach (MemoryRequest.task F) (Locked.init (behindLocks m₀)) x) (hheld : x.held = []) :
    ∃ calls, (calls.map (·.1)).Nodup ∧ (∀ c ∈ calls, .deliver c.1 c.2.1 ∈ x.log) ∧ Serially F m₀ calls (memoryOf x.data) ∧
      (∀ t result, Returned x.log t result → (∃ request, (t, request, result) ∈ calls) ∨
        ∃ request, .deliver t request ∈ x.log ∧ ∀ m, ∃ us, Prog.Exec (request.run F m) us (result, m)) ∧
      ∀ t u, Before x t u → ¬[u, t].Sublist (calls.map (·.1)) := by
  obtain ⟨hnodup, hfits, hdata, hquiet⟩ := h.serial disciplined_task hheld
  have hbegun : ∀ t ∈ commitOrder x.log, ∃ request q, .deliver t request ∈ x.log ∧
      Prog.Steps (MemoryRequest.task F request) (traceOf t x.log) q := by
    intro t ht
    obtain ⟨request, q, hdelivered, q', hsteps, -⟩ := h.begun_of_commit disciplined_task ht
    exact ⟨request, q', hdelivered, hsteps⟩
  obtain ⟨calls, hsub, hdelivered, hserial, hreturned⟩ := serially_of_fits hbegun hfits
  rw [hdata] at hserial
  refine ⟨calls, hsub.nodup hnodup, fun c hc => (hdelivered c hc).1, hserial, fun t result hresult => ?_,
    fun t u hbefore hsub' => ?_⟩
  · by_cases hbusy : NoAccess (traceOf t x.log)
    · exact Or.inr (returned_of_quiet h hresult hbusy)
    · exact Or.inl (hreturned t (by_contra fun ht => hbusy (hquiet t ht)) hbusy result hresult)
  · obtain ⟨c, hc, hct⟩ := List.mem_map.mp (hsub'.subset (show t ∈ [u, t] by simp))
    refine commitOrder_of_before h hbefore ?_ (hsub'.trans hsub)
    rw [← hct]
    exact (hdelivered c hc).2

/-- As long as a task has a call to make, some task can make its next call: the tasks do not wait for each other in a ring. -/
theorem memory_tasks_go_on {F : Floats φ σ} {m₀ : AgentMemorySystem φ} {x : MemoryTasks φ}
    (h : Locked.Reach (MemoryRequest.task F) (Locked.init (behindLocks m₀)) x) {t : Nat} {request : MemoryRequest φ}
    {c : LockCall MemoryLock (MemoryLock.Data φ) (TaskCall φ)} {k : c.Answer (TaskCall.Answer φ) → MemoryTask φ Unit}
    (ht : x.threads t = some (request, .call c k)) :
    ∃ u e y, Locked.Step (MemoryRequest.task F) x (.call u e) y := by
  refine h.progress disciplined_task (fun i => ?_) ht
  cases i with
  | ask c =>
    cases c with
    | getEmbedding text => exact ⟨.ok []⟩
    | systemTimeNow => exact ⟨⟨0⟩⟩
  | reply result => exact ⟨()⟩

end Serially

/-! ## A consolidation and a message -/

section Beside

/-- A memory that is due for consolidation. -/
def dueMemory : AgentMemorySystem Int :=
  { shortTerm := ((ShortTermMemory.new 2).addMessage .user "Is it paid?" [] ⟨0⟩).addMessage .assistant "It is." [] ⟨1⟩,
    longTerm := .new }

/-- Any answer: no embedding, and one reading of the clock. -/
def plainAnswer : (c : LockCall MemoryLock (MemoryLock.Data Int) (TaskCall Int)) → Option (c.Answer (TaskCall.Answer Int))
  | .acquire _ _ => some ()
  | .release _ => some ()
  | .get l => some (behindLocks dueMemory l)
  | .set _ _ => some ()
  | .outside (.ask (.getEmbedding _)) => some (.ok [1])
  | .outside (.ask .systemTimeNow) => some ⟨2⟩
  | .outside (.reply _) => some ()

/-- A message is added while a consolidation waits for an embedding. -/
def besideScript : List (Pool.Action (LockCall MemoryLock (MemoryLock.Data Int) (TaskCall Int))
    (LockCall.Answer (TaskCall.Answer Int)) (MemoryRequest Int) Nat) :=
  [.deliver 0 (.consolidate 1), .call 0 plainAnswer, .deliver 1 (.addMessage .user "Thanks." []), .call 0 plainAnswer,
    .call 0 plainAnswer]

/-- The consolidation goes on, and then the message is added. -/
def besideEnd : List (Pool.Action (LockCall MemoryLock (MemoryLock.Data Int) (TaskCall Int))
    (LockCall.Answer (TaskCall.Answer Int)) (MemoryRequest Int) Nat) :=
  List.replicate 9 (.call 0 plainAnswer) ++ List.replicate 6 (.call 1 plainAnswer)

/-- Both were carried out: a digest is kept for the long term, and the message is there. -/
theorem memory_shared_safely_beside : ∃ x : MemoryTasks Int,
    Locked.Reach (MemoryRequest.task wholeNumbers) (Locked.init (behindLocks dueMemory)) x ∧
    (x.data .shortTerm).messages.length = 2 ∧ (x.data .longTerm).entries.length = 1 ∧
    ∃ calls, (calls.map (·.1)).Nodup ∧ (∀ c ∈ calls, .deliver c.1 c.2.1 ∈ x.log) ∧
      Serially wholeNumbers dueMemory calls (memoryOf x.data) ∧
      (∀ t result, Returned x.log t result → (∃ request, (t, request, result) ∈ calls) ∨
        ∃ request, .deliver t request ∈ x.log ∧ ∀ m, ∃ us, Prog.Exec (request.run wholeNumbers m) us (result, m)) ∧
      ∀ t u, Before x t u → ¬[u, t].Sublist (calls.map (·.1)) := by
  have hrun : ((Locked.init (behindLocks dueMemory) : MemoryTasks Int).exec (MemoryRequest.task wholeNumbers)
      (besideScript ++ besideEnd)).any (fun x => decide (x.held = [] ∧ (x.data .shortTerm).messages.length = 2 ∧
        (x.data .longTerm).entries.length = 1)) = true := by
    decide +kernel
  obtain ⟨x, hx, htest⟩ := Locked.exists_reach_of_exec hrun
  obtain ⟨hheld, hshort, hlong⟩ := of_decide_eq_true htest
  exact ⟨x, hx, hshort, hlong, memory_shared_safely hx hheld⟩

/-- The added message waits, and the consolidation can go on. -/
theorem memory_tasks_go_on_beside : ∃ x : MemoryTasks Int,
    Locked.Reach (MemoryRequest.task wholeNumbers) (Locked.init (behindLocks dueMemory)) x ∧
    (∃ request k, x.threads 1 = some (request, .call (.acquire .shortTerm .exclusive) k)) ∧
    ∃ u e y, Locked.Step (MemoryRequest.task wholeNumbers) x (.call u e) y := by
  have hrun : ((Locked.init (behindLocks dueMemory) : MemoryTasks Int).exec (MemoryRequest.task wholeNumbers)
      besideScript).any (fun x => decide (x.awaits 1 = some (.shortTerm, .exclusive))) = true := by
    decide +kernel
  obtain ⟨x, hx, htest⟩ := Locked.exists_reach_of_exec hrun
  obtain ⟨request, k, ht⟩ := Locked.exists_acquire_of_awaits (of_decide_eq_true htest)
  exact ⟨x, hx, ⟨request, k, ht⟩, memory_tasks_go_on hx ht⟩

end Beside

end ChainBridge.AgentMemory
