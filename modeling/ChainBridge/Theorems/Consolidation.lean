import ChainBridge.Lemmas.AgentMemory

/-!
# Consolidation of the conversation

While the provider embeds what it is asked to, a conversation is in the digests of the long-term memory and in the messages
that are left, in order and whole. A failure of the provider loses what was to be digested: the messages are cut off first.
-/

namespace ChainBridge.AgentMemory

open Interleave

variable {φ : Type}

/-! ## A conversation as text -/

/-- The text of what was said, a line for each message. -/
def rendering : List (MessageRole × String) → String
  | [] => ""
  | (role, content) :: said => digestLine role content ++ rendering said

/-- What the messages say. -/
def said (messages : List Message) : List (MessageRole × String) := messages.map fun msg => (msg.role, msg.content)

/-- What a call adds to the conversation. -/
def Operation.spoken : Operation → List (MessageRole × String)
  | .addMessage role content _ => [(role, content)]
  | .rememberFact .. => []
  | .consolidate _ => []

/-- Whether a call stores a fact that is not of the conversation. -/
def Operation.isFact : Operation → Bool
  | .rememberFact .. => true
  | _ => false

/-- Whether an entry is the digest of a consolidation. -/
def MemoryEntry.isSummary (entry : MemoryEntry φ) : Bool := entry.tags == ["consolidation_summary"]

/-- What follows the first line of a digest. -/
def MemoryEntry.body (entry : MemoryEntry φ) : String :=
  String.ofList (entry.content.toList.drop digestHeader.toList.length)

/-- The bodies of entries, one after the other. -/
def bodies : List (MemoryEntry φ) → String
  | [] => ""
  | entry :: entries => entry.body ++ bodies entries

/-- The digests in the long-term memory, oldest first. -/
def AgentMemorySystem.summaries (m : AgentMemorySystem φ) : List (MemoryEntry φ) :=
  m.longTerm.entries.filter MemoryEntry.isSummary

/-- The provider embedded what it was asked to, if this is a call of it. -/
def Embedded : Event (MemoryCall.Answer φ) → Prop
  | ⟨.getEmbedding _, .error _⟩ => False
  | _ => True

namespace ConsolidationAux

open AgentMemorySystem

theorem rendering_append (l l' : List (MessageRole × String)) : rendering (l ++ l') = rendering l ++ rendering l' := by
  induction l with
  | nil => simp [rendering]
  | cons a l ih => rw [List.cons_append, rendering, rendering, ih, String.append_assoc]

theorem bodies_append (l l' : List (MemoryEntry φ)) : bodies (l ++ l') = bodies l ++ bodies l' := by
  induction l with
  | nil => simp [bodies]
  | cons a l ih => rw [List.cons_append, bodies, bodies, ih, String.append_assoc]

theorem foldl_digestLine (messages : List Message) (s : String) :
    messages.foldl (fun digest msg => digest ++ digestLine msg.role msg.content) s = s ++ rendering (said messages) := by
  induction messages generalizing s with
  | nil => simp [said, rendering]
  | cons msg messages ih =>
    rw [List.foldl_cons, ih, String.append_assoc]
    rfl

/-- A digest is the first line and the text of the messages. -/
theorem digest_eq (messages : List Message) : digest messages = digestHeader ++ rendering (said messages) :=
  foldl_digestLine messages digestHeader

theorem body_of_content {entry : MemoryEntry φ} {text : String} (h : entry.content = digestHeader ++ text) :
    entry.body = text := by
  rw [MemoryEntry.body, h, String.toList_append, List.drop_left, String.ofList_toList]

/-- The digests and the messages that are left are the conversation, and every digest has its first line. -/
structure Conserved (m : AgentMemorySystem φ) (conversation : List (MessageRole × String)) : Prop where
  text : bodies m.summaries ++ rendering (said m.shortTerm.messages) = rendering conversation
  headed : ∀ entry ∈ m.summaries, entry.content = digestHeader ++ entry.body

/-- A message that is added is at the end of the conversation. -/
theorem Conserved.addMessage {m : AgentMemorySystem φ} {conversation : List (MessageRole × String)} (h : Conserved m conversation)
    (role : MessageRole) (content : String) (metadata : Metadata) (now : SystemTime) :
    Conserved { m with shortTerm := m.shortTerm.addMessage role content metadata now } (conversation ++ [(role, content)]) := by
  refine ⟨?_, h.headed⟩
  show bodies m.summaries ++ rendering (said (m.shortTerm.messages ++ [_])) = _
  rw [said, List.map_append, rendering_append, ← String.append_assoc, rendering_append, ← h.text]
  rfl

/-- What is cut off and what is left of the messages are the messages. -/
theorem rendering_older_recent (m : AgentMemorySystem φ) (keepRecent : Nat) :
    rendering (said (m.older keepRecent)) ++ rendering (said (m.recent keepRecent)) = rendering (said m.shortTerm.messages) := by
  rw [← rendering_append, said, said, ← List.map_append, older_append_recent]
  rfl

/-- The messages that are cut off go into the digest that is inserted. -/
theorem Conserved.consolidate {m : AgentMemorySystem φ} {conversation : List (MessageRole × String)} (h : Conserved m conversation)
    (keepRecent : Nat) (embedding : List φ) (metadata : Metadata) (idAt now : SystemTime) :
    Conserved ((m.dropOlder keepRecent).inserted
      (newEntry (digest (m.older keepRecent)) embedding ["consolidation_summary"] metadata idAt now)) conversation := by
  generalize hentry : newEntry (digest (m.older keepRecent)) embedding ["consolidation_summary"] metadata idAt now = entry
  have hcontent : entry.content = digestHeader ++ rendering (said (m.older keepRecent)) := by
    rw [← hentry, ← digest_eq]
    rfl
  have hsummary : entry.isSummary = true := by
    rw [← hentry]
    rfl
  have hsummaries : ((m.dropOlder keepRecent).inserted entry).summaries = m.summaries ++ [entry] := by
    rw [summaries, inserted_entries, List.filter_append, List.filter_singleton, hsummary]
    rfl
  refine ⟨?_, ?_⟩
  · rw [hsummaries, bodies_append, bodies, bodies, body_of_content hcontent, String.append_empty, String.append_assoc]
    show bodies m.summaries ++ (_ ++ rendering (said (m.recent keepRecent))) = _
    rw [rendering_older_recent, h.text]
  · rw [hsummaries]
    intro e he
    rcases List.mem_append.mp he with he | he
    · exact h.headed e he
    · rw [List.mem_singleton.mp he, body_of_content hcontent]
      exact hcontent

/-- A call conserves the conversation if its embeddings succeed. -/
theorem Conserved.run {m m' : AgentMemorySystem φ} {conversation : List (MessageRole × String)} (h : Conserved m conversation)
    {op : Operation} {t : List (Event (MemoryCall.Answer φ))} (hop : op.isFact = false) (hrun : Prog.Exec (op.run m) t m')
    (ht : ∀ e ∈ t, Embedded e) : Conserved m' (conversation ++ op.spoken) := by
  cases op with
  | rememberFact => cases hop
  | addMessage role content metadata =>
    obtain ⟨now, rfl, rfl⟩ := exec_addMessage.mp hrun
    exact h.addMessage role content metadata now
  | consolidate keepRecent =>
    obtain ⟨r, hrun⟩ := exec_snd.mp hrun
    rw [Operation.spoken, List.append_nil]
    rcases exec_consolidate.mp hrun with ⟨-, -, -, rfl⟩ | ⟨-, e, rfl, -, -⟩ | ⟨-, embedding, idAt, now, -, -, rfl⟩
    · exact h
    · exact (ht _ List.mem_cons_self).elim
    · exact h.consolidate keepRecent embedding _ idAt now

/-- A run conserves the conversation if its embeddings succeed. -/
theorem Conserved.session {ops : List Operation} {m m' : AgentMemorySystem φ} {conversation : List (MessageRole × String)}
    (h : Conserved m conversation) {t : List (Event (MemoryCall.Answer φ))} (hops : ∀ op ∈ ops, op.isFact = false)
    (hrun : Prog.Exec (session m ops) t m') (ht : ∀ e ∈ t, Embedded e) :
    Conserved m' (conversation ++ ops.flatMap Operation.spoken) := by
  induction ops generalizing m conversation t with
  | nil =>
    obtain ⟨-, rfl⟩ := Prog.exec_ret.mp hrun
    simpa using h
  | cons op ops ih =>
    obtain ⟨t₁, t₂, m₁, rfl, h₁, h₂⟩ := exec_session_cons.mp hrun
    have hstep := h.run (hops op List.mem_cons_self) h₁ fun e he => ht e (List.mem_append_left _ he)
    have hrest := ih hstep (fun op' hop' => hops op' (List.mem_cons_of_mem _ hop')) h₂
      fun e he => ht e (List.mem_append_right _ he)
    rwa [List.flatMap_cons, ← List.append_assoc]

theorem conserved_new (maxMessages : Nat) : Conserved (AgentMemorySystem.new maxMessages : AgentMemorySystem φ) [] :=
  ⟨by simp [AgentMemorySystem.new, ShortTermMemory.new, LongTermMemory.new, summaries, bodies, said, rendering],
    by simp [AgentMemorySystem.new, LongTermMemory.new, summaries]⟩

theorem length_recent {m : AgentMemorySystem φ} {keepRecent : Nat} (h : m.Due keepRecent) :
    (m.recent keepRecent).length = keepRecent := by
  have hlen := h.2
  rw [recent, List.length_drop]
  omega

/-- A consolidation that has something to do leaves other messages than there were. -/
theorem dropOlder_ne {m : AgentMemorySystem φ} {keepRecent : Nat} (h : m.Due keepRecent) : m.dropOlder keepRecent ≠ m := by
  intro heq
  have hlen : (m.recent keepRecent).length = m.shortTerm.messages.length := by
    rw [← dropOlder_messages, heq]
  rw [length_recent h] at hlen
  exact absurd h.2 (by omega)

end ConsolidationAux

open ConsolidationAux AgentMemorySystem

/-! ## The results -/

/-- A consolidation that returns an error, or nothing, leaves the memory as it was, unless it had messages to cut off and the
provider failed on their digest. -/
theorem failed_consolidation_harmless_iff (m : AgentMemorySystem φ) (keepRecent : Nat) (t : List (Event (MemoryCall.Answer φ)))
    (r : Except MemoryError (Option String)) (m' : AgentMemorySystem φ) (h : Prog.Exec (m.consolidate keepRecent) t (r, m')) :
    ((∃ e, r = .error e) ∨ r = .ok none → m' = m) ↔
      ¬ (m.shortTerm.maxMessages ≤ m.shortTerm.messages.length ∧ keepRecent < m.shortTerm.messages.length ∧
        ∃ e, ⟨.getEmbedding (digest (m.older keepRecent)), .error e⟩ ∈ t) := by
  rcases exec_consolidate.mp h with ⟨hdue, rfl, rfl, rfl⟩ | ⟨hdue, e, rfl, rfl, rfl⟩ | ⟨hdue, embedding, idAt, now, rfl, rfl, rfl⟩
  · simp
  · constructor
    · intro hsame
      exact absurd (hsame (Or.inl ⟨e, rfl⟩)) (dropOlder_ne hdue)
    · intro hnot
      exact absurd ⟨hdue.1, hdue.2, e, List.mem_cons_self⟩ hnot
  · simp

/-- Two messages, with room for no more. -/
def fullMemory : AgentMemorySystem Int :=
  { shortTerm := { messages := [⟨.user, "Hello world", 1, []⟩, ⟨.assistant, "Greetings!", 2, []⟩], maxMessages := 2 },
    longTerm := .new }

theorem failed_consolidation_harmless_kept :
    ∃ t r m', Prog.Exec (fullMemory.consolidate 2) t (r, m') ∧ ((∃ e, r = .error e) ∨ r = .ok none → m' = fullMemory) :=
  ⟨[], .ok none, fullMemory, .nil _,
    (failed_consolidation_harmless_iff fullMemory 2 [] (.ok none) fullMemory (.nil _)).mpr fun h => absurd h.2.1 (by decide)⟩

/-- The provider fails on the digest of the older message: the message is gone, and no digest holds it. -/
theorem undigested_message_lost :
    ¬ ∀ (m : AgentMemorySystem Int) (keepRecent : Nat) (t : List (Event (MemoryCall.Answer Int)))
        (r : Except MemoryError (Option String)) (m' : AgentMemorySystem Int),
      Prog.Exec (m.consolidate keepRecent) t (r, m') → (∃ e, r = .error e) ∨ r = .ok none →
        m'.shortTerm = m.shortTerm ∧ m'.longTerm = m.longTerm := by
  intro hall
  have hrun : Prog.Exec (fullMemory.consolidate 1)
      [⟨.getEmbedding (digest [⟨.user, "Hello world", 1, []⟩]), .error (.httpError "connection refused")⟩]
      (.error (.httpError "connection refused"), fullMemory.dropOlder 1) :=
    exec_consolidate.mpr (Or.inr (Or.inl ⟨by decide, _, rfl, rfl, rfl⟩))
  have hshort := (hall _ _ _ _ _ hrun (Or.inl ⟨_, rfl⟩)).1
  exact absurd hshort (by decide)

end ChainBridge.AgentMemory
