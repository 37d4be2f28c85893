import ChainBridge.Lib.Prog
import ChainBridge.Lib.TopK

/-!
# The agent's memory

`chain-bridge-api/src/agent_memory.rs`: a buffer of recent messages, and a long-term memory of embedded texts.
`AgentMemorySystem` moves old messages into the long-term memory as a digest (`consolidate`), stores facts (`remember_fact`)
and searches (`recall`). Each of them holds the lock of what it changes, so they are carried out one after the other: a program
takes the memory and returns it. What is not in the memory it asks for: embeddings of the provider, which may fail, and the
time of the clock, which may be anything.
-/

namespace ChainBridge.AgentMemory

open Interleave TopK

/-- `MemoryError`. -/
inductive MemoryError where
  | embeddingFailed (text : String)
  | serialization (text : String)
  | httpError (text : String)
  | internal (text : String)
  deriving DecidableEq

/-- `SystemTime`: the nanoseconds since `UNIX_EPOCH`, negative before it. -/
structure SystemTime where
  sinceEpoch : Int
  deriving DecidableEq

/-- `duration_since(UNIX_EPOCH).unwrap_or_default().as_nanos()`. -/
def SystemTime.asNanos (t : SystemTime) : Nat := t.sinceEpoch.toNat

/-- `current_time_ms`, at a reading of the clock. -/
def currentTimeMs (t : SystemTime) : Nat := t.asNanos / 1000000 % UInt64.size

/-! ## Numbers and similarity -/

/-- The numbers of type `f32`: the operations, and what a number is when it is compared. -/
structure Floats (φ σ : Type) where
  zero : φ
  add : φ → φ → φ
  mul : φ → φ → φ
  div : φ → φ → φ
  sqrt : φ → φ
  /-- The place of the number in the order of the numbers; `-0.0` and `0.0` have the same. -/
  value : φ → WithNaN σ

section Similarity

variable {φ σ : Type} [LinearOrder σ]

/-- `cosine_similarity`. -/
def cosineSimilarity (F : Floats φ σ) (a b : List φ) : φ :=
  if a.length ≠ b.length ∨ a.isEmpty then F.zero
  else
    let sums := (a.zip b).foldl
      (fun (dotProduct, normA, normB) (x, y) =>
        (F.add dotProduct (F.mul x y), F.add normA (F.mul x x), F.add normB (F.mul y y)))
      (F.zero, F.zero, F.zero)
    let (dotProduct, normA, normB) := sums
    if (F.value normA).eq (F.value F.zero) || (F.value normB).eq (F.value F.zero) then F.zero
    else F.div dotProduct (F.mul (F.sqrt normA) (F.sqrt normB))

end Similarity

/-! ## Short-term memory -/

/-- `MessageRole`. -/
inductive MessageRole where
  | system
  | user
  | assistant
  | tool
  deriving DecidableEq

/-- A `HashMap<String, String>`, of which nothing is read. -/
abbrev Metadata : Type := List (String × String)

/-- `Message`. -/
structure Message where
  role : MessageRole
  content : String
  timestampMs : Nat
  metadata : Metadata
  deriving DecidableEq

/-- `ShortTermMemory`. -/
structure ShortTermMemory where
  messages : List Message
  maxMessages : Nat
  deriving DecidableEq

namespace ShortTermMemory

/-- `ShortTermMemory::new`. -/
def new (maxMessages : Nat) : ShortTermMemory := { messages := [], maxMessages }

/-- `add_message`, at a reading of the clock. -/
def addMessage (st : ShortTermMemory) (role : MessageRole) (content : String) (metadata : Metadata) (now : SystemTime) :
    ShortTermMemory :=
  { st with messages := st.messages ++ [{ role, content, timestampMs := currentTimeMs now, metadata }] }

/-- `needs_consolidation`. -/
def needsConsolidation (st : ShortTermMemory) : Bool := decide (st.maxMessages ≤ st.messages.length)

/-- `truncate_older`: the messages that are cut off, and what is left. -/
def truncateOlder (st : ShortTermMemory) (keep : Nat) : List Message × ShortTermMemory :=
  if st.messages.length ≤ keep then ([], st)
  else
    let splitIdx := st.messages.length - keep
    (st.messages.take splitIdx, { st with messages := st.messages.drop splitIdx })

end ShortTermMemory

/-! ## Long-term memory -/

/-- `MemoryEntry`. -/
structure MemoryEntry (φ : Type) where
  id : String
  content : String
  embedding : List φ
  createdAtMs : Nat
  lastAccessedAtMs : Nat
  accessCount : Nat
  tags : List String
  metadata : Metadata

/-- `LongTermMemory`. -/
structure LongTermMemory (φ : Type) where
  entries : List (MemoryEntry φ)

namespace LongTermMemory

variable {φ σ : Type} [LinearOrder σ]

/-- `LongTermMemory::new`. -/
def new : LongTermMemory φ := { entries := [] }

/-- `insert`. -/
def insert (lt : LongTermMemory φ) (entry : MemoryEntry φ) : LongTermMemory φ := { entries := lt.entries ++ [entry] }

/-- The comparator that `query` sorts by. -/
def byScore {ε : Type} (F : Floats φ σ) (a b : ε × φ) : Ordering := ((F.value b.2).partialCmp (F.value a.2)).getD .eq

/-- The body of `query`, for any scoring of the entries. -/
def queryBy (F : Floats φ σ) (score : MemoryEntry φ → φ) (lt : LongTermMemory φ) (limit : Nat) (minScore : φ) :
    List (MemoryEntry φ × φ) :=
  let results := lt.entries.filterMap fun entry =>
    if (F.value (score entry)).ge (F.value minScore) then some (entry, score entry) else none
  (sortBy (byScore F) results).take limit

/-- `query`. -/
def query (F : Floats φ σ) (lt : LongTermMemory φ) (queryEmbedding : List φ) (limit : Nat) (minScore : φ) :
    List (MemoryEntry φ × φ) :=
  lt.queryBy F (fun entry => cosineSimilarity F queryEmbedding entry.embedding) limit minScore

/-- `touch_entry`, at a reading of the clock: the first entry with the id, if there is one. -/
def touchEntry (lt : LongTermMemory φ) (id : String) (now : SystemTime) : LongTermMemory φ :=
  { entries := lt.entries.modify (lt.entries.findIdx fun e => e.id == id) fun entry =>
      { entry with lastAccessedAtMs := currentTimeMs now, accessCount := entry.accessCount + 1 } }

end LongTermMemory

/-! ## Ids -/

/-- The bytes of `uuid_v4_placeholder`. -/
def uuidBytes (nanos : Nat) : Fin 16 → UInt8 :=
  let bytes : Fin 16 → UInt8 := fun i => UInt8.ofNat ((nanos >>> (i.val * 8)) &&& 0xff)
  -- version 4, variant 10xx
  let bytes := fun i => if i = 6 then (bytes 6 &&& 0x0f) ||| 0x40 else bytes i
  fun i => if i = 8 then (bytes 8 &&& 0x3f) ||| 0x80 else bytes i

/-- `{:02x}`. -/
def hexByte (b : UInt8) : List Char := [Nat.digitChar (b.toNat / 16), Nat.digitChar (b.toNat % 16)]

/-- `uuid_v4_placeholder`, at a reading of the clock. -/
def uuidV4Placeholder (now : SystemTime) : String :=
  let bytes := uuidBytes now.asNanos
  let hex (is : List (Fin 16)) : List Char := is.flatMap fun i => hexByte (bytes i)
  String.ofList
    (hex [0, 1, 2, 3] ++ '-' :: hex [4, 5] ++ '-' :: hex [6, 7] ++ '-' :: hex [8, 9] ++ '-' :: hex [10, 11, 12, 13, 14, 15])

/-! ## The memory as a whole -/

/-- What a call of the memory asks for. -/
inductive MemoryCall where
  /-- `embedding_provider.get_embedding`. -/
  | getEmbedding (text : String)
  /-- `SystemTime::now`. -/
  | systemTimeNow
  deriving DecidableEq

/-- The answers. -/
@[reducible] def MemoryCall.Answer (φ : Type) : MemoryCall → Type
  | .getEmbedding _ => Except MemoryError (List φ)
  | .systemTimeNow => SystemTime

/-- A call of the memory. -/
abbrev MemoryProg (φ α : Type) : Type := Prog MemoryCall (MemoryCall.Answer φ) α

/-- `AgentMemorySystem`, without the episodes. -/
structure AgentMemorySystem (φ : Type) where
  shortTerm : ShortTermMemory
  longTerm : LongTermMemory φ

/-- The role as the digest names it. -/
def MessageRole.str : MessageRole → String
  | .system => "System"
  | .user => "User"
  | .assistant => "Assistant"
  | .tool => "Tool"

/-- The line of a digest for a message. -/
def digestLine (role : MessageRole) (content : String) : String := "- " ++ role.str ++ ": " ++ content ++ "\n"

/-- The first line of a digest. -/
def digestHeader : String := "Summary of past conversation steps:\n"

/-- The digest of messages. -/
def digest (messages : List Message) : String :=
  messages.foldl (fun digest msg => digest ++ digestLine msg.role msg.content) digestHeader

namespace AgentMemorySystem

variable {φ σ : Type} [LinearOrder σ]

/-- `AgentMemorySystem::new`. -/
def new (maxShortTermMessages : Nat) : AgentMemorySystem φ :=
  { shortTerm := .new maxShortTermMessages, longTerm := .new }

/-- `add_message`. -/
def addMessage (m : AgentMemorySystem φ) (role : MessageRole) (content : String) (metadata : Metadata) :
    MemoryProg φ (AgentMemorySystem φ) := do
  let now : SystemTime ← Prog.perform MemoryCall.systemTimeNow
  return { m with shortTerm := m.shortTerm.addMessage role content metadata now }

/-- Embed a text and insert an entry for it: all of `remember_fact`, and the end of `consolidate`. An error of the provider is
returned at once. -/
def embedAndInsert (m : AgentMemorySystem φ) (content : String) (tags : List String) (metadata : Metadata) :
    MemoryProg φ (Except MemoryError String × AgentMemorySystem φ) := do
  match ← Prog.perform (MemoryCall.getEmbedding content) with
  | .error e => return (.error e, m)
  | .ok embedding =>
    let id := uuidV4Placeholder (← Prog.perform MemoryCall.systemTimeNow)
    let now := currentTimeMs (← Prog.perform MemoryCall.systemTimeNow)
    let entry : MemoryEntry φ :=
      { id, content, embedding, createdAtMs := now, lastAccessedAtMs := now, accessCount := 1, tags, metadata }
    return (.ok id, { m with longTerm := m.longTerm.insert entry })

/-- `remember_fact`. -/
def rememberFact (m : AgentMemorySystem φ) (fact : String) (tags : List String) (metadata : Metadata) :
    MemoryProg φ (Except MemoryError String × AgentMemorySystem φ) :=
  m.embedAndInsert fact tags metadata

/-- The loop of `recall` over what it found: each entry is touched by its id. The clock is read when there is an entry to
touch. -/
def touchEntries (lt : LongTermMemory φ) : List String → MemoryProg φ (LongTermMemory φ)
  | [] => return lt
  | id :: ids => do
    if lt.entries.any (fun e => e.id == id) then
      let now : SystemTime ← Prog.perform MemoryCall.systemTimeNow
      touchEntries (lt.touchEntry id now) ids
    else
      touchEntries lt ids

/-- `recall`; the word itself is a command of Mathlib. -/
def recallEntries (F : Floats φ σ) (m : AgentMemorySystem φ) (query : String) (limit : Nat) (minScore : φ) :
    MemoryProg φ (Except MemoryError (List (MemoryEntry φ × φ)) × AgentMemorySystem φ) := do
  match ← Prog.perform (MemoryCall.getEmbedding query) with
  | .error e => return (.error e, m)
  | .ok queryEmbedding =>
    let results := m.longTerm.query F queryEmbedding limit minScore
    let longTerm ← touchEntries m.longTerm (results.map fun result => result.1.id)
    return (.ok results, { m with longTerm })

/-- `consolidate`. The messages are cut off before the provider is asked. -/
def consolidate (m : AgentMemorySystem φ) (keepRecent : Nat) :
    MemoryProg φ (Except MemoryError (Option String) × AgentMemorySystem φ) := do
  if !m.shortTerm.needsConsolidation then
    return (.ok none, m)
  let (truncated, shortTerm) := m.shortTerm.truncateOlder keepRecent
  let m := { m with shortTerm }
  if truncated.isEmpty then
    return (.ok none, m)
  let (id, m) ← m.embedAndInsert (digest truncated) ["consolidation_summary"] [("source", "consolidation")]
  return (id.map some, m)

end AgentMemorySystem

/-! ## Runs -/

/-- A call that changes the memory, other than by `recall`. -/
inductive Operation where
  | addMessage (role : MessageRole) (content : String) (metadata : Metadata)
  | rememberFact (fact : String) (tags : List String) (metadata : Metadata)
  | consolidate (keepRecent : Nat)

/-- The memory after a call. -/
def Operation.run {φ : Type} (m : AgentMemorySystem φ) : Operation → MemoryProg φ (AgentMemorySystem φ)
  | .addMessage role content metadata => m.addMessage role content metadata
  | .rememberFact fact tags metadata => do return (← m.rememberFact fact tags metadata).2
  | .consolidate keepRecent => do return (← m.consolidate keepRecent).2

/-- Carry out calls one after the other. -/
def session {φ : Type} (m : AgentMemorySystem φ) : List Operation → MemoryProg φ (AgentMemorySystem φ)
  | [] => return m
  | op :: ops => do session (← op.run m) ops

end ChainBridge.AgentMemory
