import ChainBridge.AgentMemory

/-!
# What the calls of the agent's memory do

For each call, what it asks for and what it leaves behind. `exec_consolidate` is the inversion of `consolidate`: nothing is
done, or the older messages are gone and the provider failed, or they are in a new entry.
-/

namespace ChainBridge.AgentMemory

open Interleave

namespace AgentMemorySystem

variable {φ : Type} {m m' : AgentMemorySystem φ} {t : List (Event (MemoryCall.Answer φ))}

/-- The messages that `consolidate` cuts off. -/
def older (m : AgentMemorySystem φ) (keepRecent : Nat) : List Message :=
  m.shortTerm.messages.take (m.shortTerm.messages.length - keepRecent)

/-- The messages that `consolidate` leaves. -/
def recent (m : AgentMemorySystem φ) (keepRecent : Nat) : List Message :=
  m.shortTerm.messages.drop (m.shortTerm.messages.length - keepRecent)

theorem older_append_recent (m : AgentMemorySystem φ) (keepRecent : Nat) :
    m.older keepRecent ++ m.recent keepRecent = m.shortTerm.messages := List.take_append_drop _ _

/-- The memory without its older messages. -/
def dropOlder (m : AgentMemorySystem φ) (keepRecent : Nat) : AgentMemorySystem φ :=
  { m with shortTerm := { m.shortTerm with messages := m.recent keepRecent } }

/-- Whether `consolidate` has something to do. -/
def Due (m : AgentMemorySystem φ) (keepRecent : Nat) : Prop :=
  m.shortTerm.maxMessages ≤ m.shortTerm.messages.length ∧ keepRecent < m.shortTerm.messages.length

instance (m : AgentMemorySystem φ) (keepRecent : Nat) : Decidable (m.Due keepRecent) := inferInstanceAs (Decidable (_ ∧ _))

/-- The entry that a call inserts, from the readings of the clock it took. -/
def newEntry (content : String) (embedding : List φ) (tags : List String) (metadata : Metadata) (idAt now : SystemTime) :
    MemoryEntry φ :=
  { id := uuidV4Placeholder idAt, content, embedding, createdAtMs := currentTimeMs now, lastAccessedAtMs := currentTimeMs now,
    accessCount := 1, tags, metadata }

/-- The memory with one more entry. -/
def inserted (m : AgentMemorySystem φ) (entry : MemoryEntry φ) : AgentMemorySystem φ :=
  { m with longTerm := m.longTerm.insert entry }

@[simp] theorem inserted_entries (m : AgentMemorySystem φ) (entry : MemoryEntry φ) :
    (m.inserted entry).longTerm.entries = m.longTerm.entries ++ [entry] := rfl

@[simp] theorem dropOlder_messages (m : AgentMemorySystem φ) (keepRecent : Nat) :
    (m.dropOlder keepRecent).shortTerm.messages = m.recent keepRecent := rfl

@[simp] theorem dropOlder_longTerm (m : AgentMemorySystem φ) (keepRecent : Nat) :
    (m.dropOlder keepRecent).longTerm = m.longTerm := rfl

/-! ## The calls -/

theorem exec_addMessage {role : MessageRole} {content : String} {metadata : Metadata} :
    Prog.Exec (m.addMessage role content metadata) t m' ↔
      ∃ now, t = [⟨.systemTimeNow, now⟩] ∧ m' = { m with shortTerm := m.shortTerm.addMessage role content metadata now } := by
  rw [addMessage, Prog.exec_perform]
  constructor
  · rintro ⟨now, t', rfl, h⟩
    obtain ⟨rfl, rfl⟩ := Prog.exec_ret.mp h
    exact ⟨now, rfl, rfl⟩
  · rintro ⟨now, rfl, rfl⟩
    exact ⟨now, [], rfl, Prog.exec_ret.mpr ⟨rfl, rfl⟩⟩

/-- A text is stored when the provider embeds it; otherwise nothing happens. -/
theorem exec_embedAndInsert {content : String} {tags : List String} {metadata : Metadata} {r : Except MemoryError String} :
    Prog.Exec (m.embedAndInsert content tags metadata) t (r, m') ↔
      (∃ e, t = [⟨.getEmbedding content, .error e⟩] ∧ r = .error e ∧ m' = m) ∨
      ∃ embedding idAt now,
        t = [⟨.getEmbedding content, .ok embedding⟩, ⟨.systemTimeNow, idAt⟩, ⟨.systemTimeNow, now⟩] ∧
          r = .ok (uuidV4Placeholder idAt) ∧ m' = m.inserted (newEntry content embedding tags metadata idAt now) := by
  rw [embedAndInsert, Prog.exec_perform]
  constructor
  · rintro ⟨answer, t', rfl, h⟩
    rcases answer with e | embedding
    · obtain ⟨rfl, hr⟩ := Prog.exec_ret.mp h
      cases hr
      exact Or.inl ⟨e, rfl, rfl, rfl⟩
    · obtain ⟨idAt, t₁, rfl, h₁⟩ := Prog.exec_perform.mp h
      obtain ⟨now, t₂, rfl, h₂⟩ := Prog.exec_perform.mp h₁
      obtain ⟨rfl, hr⟩ := Prog.exec_ret.mp h₂
      cases hr
      exact Or.inr ⟨embedding, idAt, now, rfl, rfl, rfl⟩
  · rintro (⟨e, rfl, rfl, rfl⟩ | ⟨embedding, idAt, now, rfl, rfl, rfl⟩)
    · exact ⟨.error e, [], rfl, Prog.exec_ret.mpr ⟨rfl, rfl⟩⟩
    · refine ⟨.ok embedding, _, rfl, Prog.exec_perform.mpr ⟨idAt, _, rfl, Prog.exec_perform.mpr ⟨now, [], rfl, ?_⟩⟩⟩
      exact Prog.exec_ret.mpr ⟨rfl, rfl⟩

theorem consolidate_of_not_due {keepRecent : Nat} (h : ¬ m.Due keepRecent) : m.consolidate keepRecent = .ret (.ok none, m) := by
  rw [consolidate]
  by_cases hneeds : m.shortTerm.needsConsolidation = true
  · have hlen : m.shortTerm.messages.length ≤ keepRecent :=
      Nat.le_of_not_lt fun hlt => h ⟨of_decide_eq_true hneeds, hlt⟩
    rw [ShortTermMemory.truncateOlder, if_pos hlen, hneeds]
    rfl
  · simp only [hneeds]
    rfl

theorem consolidate_of_due {keepRecent : Nat} (h : m.Due keepRecent) :
    m.consolidate keepRecent = (do
      let stored ← (m.dropOlder keepRecent).embedAndInsert (digest (m.older keepRecent)) ["consolidation_summary"]
        [("source", "consolidation")]
      return (stored.1.map some, stored.2)) := by
  have hneeds : m.shortTerm.needsConsolidation = true := decide_eq_true h.1
  have hcut : m.shortTerm.truncateOlder keepRecent =
      (m.older keepRecent, { m.shortTerm with messages := m.recent keepRecent }) := by
    rw [ShortTermMemory.truncateOlder, if_neg (Nat.not_le.mpr h.2)]
    rfl
  have hsome : (m.older keepRecent).isEmpty = false := by
    have hlen := h.2
    rw [List.isEmpty_eq_false_iff, ← List.length_pos_iff, older, List.length_take]
    omega
  rw [consolidate, hneeds, hcut]
  simp only [Bool.not_true, Bool.false_eq_true, if_false, hsome]
  rfl

/-- What `consolidate` can do. -/
theorem exec_consolidate {keepRecent : Nat} {r : Except MemoryError (Option String)} :
    Prog.Exec (m.consolidate keepRecent) t (r, m') ↔
      (¬ m.Due keepRecent ∧ t = [] ∧ r = .ok none ∧ m' = m) ∨
      (m.Due keepRecent ∧ ∃ e, t = [⟨.getEmbedding (digest (m.older keepRecent)), .error e⟩] ∧ r = .error e ∧
        m' = m.dropOlder keepRecent) ∨
      (m.Due keepRecent ∧ ∃ embedding idAt now,
        t = [⟨.getEmbedding (digest (m.older keepRecent)), .ok embedding⟩, ⟨.systemTimeNow, idAt⟩, ⟨.systemTimeNow, now⟩] ∧
          r = .ok (some (uuidV4Placeholder idAt)) ∧
          m' = (m.dropOlder keepRecent).inserted (newEntry (digest (m.older keepRecent)) embedding ["consolidation_summary"]
            [("source", "consolidation")] idAt now)) := by
  by_cases hdue : m.Due keepRecent
  · rw [consolidate_of_due hdue, Prog.exec_bind]
    simp only [hdue, not_true_eq_false, false_and, true_and, false_or]
    constructor
    · rintro ⟨t₁, t₂, ⟨r₁, m₁⟩, rfl, h₁, h₂⟩
      obtain ⟨rfl, hr⟩ := Prog.exec_ret.mp h₂
      cases hr
      rw [List.append_nil]
      rcases exec_embedAndInsert.mp h₁ with ⟨e, rfl, rfl, rfl⟩ | ⟨embedding, idAt, now, rfl, rfl, rfl⟩
      · exact Or.inl ⟨e, rfl, rfl, rfl⟩
      · exact Or.inr ⟨embedding, idAt, now, rfl, rfl, rfl⟩
    · rintro (⟨e, rfl, rfl, rfl⟩ | ⟨embedding, idAt, now, rfl, rfl, rfl⟩)
      · exact ⟨_, [], _, (List.append_nil _).symm, exec_embedAndInsert.mpr (Or.inl ⟨e, rfl, rfl, rfl⟩),
          Prog.exec_ret.mpr ⟨rfl, rfl⟩⟩
      · exact ⟨_, [], _, (List.append_nil _).symm, exec_embedAndInsert.mpr (Or.inr ⟨embedding, idAt, now, rfl, rfl, rfl⟩),
          Prog.exec_ret.mpr ⟨rfl, rfl⟩⟩
  · rw [consolidate_of_not_due hdue, Prog.exec_ret]
    simp only [hdue, not_false_eq_true, true_and, false_and, or_false, Prod.mk.injEq]
    exact and_congr_right fun _ => and_congr eq_comm eq_comm

end AgentMemorySystem

/-! ## Runs -/

theorem exec_session_cons {φ : Type} {m m' : AgentMemorySystem φ} {op : Operation} {ops : List Operation}
    {t : List (Event (MemoryCall.Answer φ))} :
    Prog.Exec (session m (op :: ops)) t m' ↔
      ∃ t₁ t₂ m₁, t = t₁ ++ t₂ ∧ Prog.Exec (op.run m) t₁ m₁ ∧ Prog.Exec (session m₁ ops) t₂ m' := Prog.exec_bind

/-- A run keeps the memory that a call leaves and forgets what it returned. -/
theorem exec_snd {φ α β : Type} {p : MemoryProg φ (α × β)} {t : List (Event (MemoryCall.Answer φ))} {b : β} :
    Prog.Exec (do return (← p).2) t b ↔ ∃ a, Prog.Exec p t (a, b) := by
  refine Prog.exec_bind.trans ⟨?_, ?_⟩
  · rintro ⟨t₁, t₂, ⟨a, b'⟩, rfl, h₁, h₂⟩
    obtain ⟨rfl, rfl⟩ := Prog.exec_ret.mp h₂
    exact ⟨a, by simpa using h₁⟩
  · rintro ⟨a, h⟩
    exact ⟨t, [], (a, b), by simp, h, Prog.exec_ret.mpr ⟨rfl, rfl⟩⟩

end ChainBridge.AgentMemory
