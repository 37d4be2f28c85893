import ChainBridge.AgentMemory
import ChainBridge.Lib.Handle
import ChainBridge.Lib.Locks

/-!
# The agent's memory under its locks

`AgentMemorySystem` keeps the two memories behind a `RwLock` each, and its methods may run side by side. `AgentMemory` carries
them out one after the other; here each is a program that takes the guards in the order of the source, reads and writes what they
guard, and drops them where they go out of scope. A task may be dropped at any call, as the future of a caller that gave up is.
-/

namespace ChainBridge.AgentMemory

open Interleave TopK

/-- The locks. -/
inductive MemoryLock where
  | shortTerm
  | longTerm
  deriving DecidableEq

/-- The order in which they are taken: `consolidate` takes the second while it holds the first. -/
instance : LT MemoryLock := ⟨fun a b => a = .shortTerm ∧ b = .longTerm⟩

instance : WellFoundedGT MemoryLock where
  wf := by
    have hlong : Acc (fun a b : MemoryLock => b < a) .longTerm := .intro _ fun l hl => by cases hl.1
    refine ⟨fun l => .intro _ fun l' hl' => ?_⟩
    rw [hl'.2]
    exact hlong

/-- What a lock guards. -/
@[reducible] def MemoryLock.Data (φ : Type) : MemoryLock → Type
  | .shortTerm => ShortTermMemory
  | .longTerm => LongTermMemory φ

/-- The results of the methods. -/
inductive MemoryResult (φ : Type) where
  | added
  | remembered (result : Except MemoryError String)
  | recalled (result : Except MemoryError (List (MemoryEntry φ × φ)))
  | consolidated (result : Except MemoryError (Option String))

/-- What a method asks of its surroundings, or returns to its caller. -/
inductive TaskCall (φ : Type) where
  | ask (c : MemoryCall)
  | reply (result : MemoryResult φ)

/-- The answers. -/
@[reducible] def TaskCall.Answer (φ : Type) : TaskCall φ → Type
  | .ask c => c.Answer φ
  | .reply _ => Unit

/-- A method under the locks, or a part of one. -/
abbrev MemoryTask (φ α : Type) : Type := LockProg (MemoryLock.Data φ) (TaskCall.Answer φ) α

/-- The calls of the methods. -/
inductive MemoryRequest (φ : Type) where
  | addMessage (role : MessageRole) (content : String) (metadata : Metadata)
  | rememberFact (fact : String) (tags : List String) (metadata : Metadata)
  | recallEntries (query : String) (limit : Nat) (minScore : φ)
  | consolidate (keepRecent : Nat)

section Tasks

variable {φ σ : Type} [LinearOrder σ]

/-- Ask for an embedding or for the time. -/
def ask (c : MemoryCall) : MemoryTask φ (c.Answer φ) := Prog.perform (LockCall.outside (TaskCall.ask c))

/-- Return to the caller. -/
def reply (result : MemoryResult φ) : MemoryTask φ Unit := Prog.perform (LockCall.outside (TaskCall.reply result))

/-- `write`: wait for the guard. -/
def write (l : MemoryLock) : MemoryTask φ Unit := Prog.perform (LockCall.acquire l .exclusive)

/-- The guard is dropped. -/
def unlock (l : MemoryLock) : MemoryTask φ Unit := Prog.perform (LockCall.release l)

/-- What a guard dereferences to. -/
def deref (l : MemoryLock) : MemoryTask φ (l.Data φ) := Prog.perform (LockCall.get l)

/-- Change what a guard dereferences to. -/
def assign (l : MemoryLock) (d : l.Data φ) : MemoryTask φ Unit := Prog.perform (LockCall.set l d)

/-- A part that only asks. -/
def asking {α : Type} (p : MemoryProg φ α) : MemoryTask φ α := p.handle ask

/-- `add_message`. -/
def addMessageTask (role : MessageRole) (content : String) (metadata : Metadata) : MemoryTask φ Unit := do
  write .shortTerm
  let now : SystemTime ← ask .systemTimeNow
  let st : ShortTermMemory ← deref .shortTerm
  assign .shortTerm (st.addMessage role content metadata now)
  unlock .shortTerm
  reply .added

/-- `remember_fact`. -/
def rememberFactTask (fact : String) (tags : List String) (metadata : Metadata) : MemoryTask φ Unit := do
  match ← ask (.getEmbedding fact) with
  | .error e => reply (.remembered (.error e))
  | .ok embedding =>
    let id := uuidV4Placeholder (← ask .systemTimeNow)
    let now := currentTimeMs (← ask .systemTimeNow)
    let entry : MemoryEntry φ :=
      { id, content := fact, embedding, createdAtMs := now, lastAccessedAtMs := now, accessCount := 1, tags, metadata }
    write .longTerm
    let lt : LongTermMemory φ ← deref .longTerm
    assign .longTerm (lt.insert entry)
    unlock .longTerm
    reply (.remembered (.ok id))

/-- `recall`. -/
def recallTask (F : Floats φ σ) (query : String) (limit : Nat) (minScore : φ) : MemoryTask φ Unit := do
  match ← ask (.getEmbedding query) with
  | .error e => reply (.recalled (.error e))
  | .ok queryEmbedding =>
    write .longTerm
    let lt : LongTermMemory φ ← deref .longTerm
    let results := lt.query F queryEmbedding limit minScore
    let lt ← asking (AgentMemorySystem.touchEntries lt (results.map fun result => result.1.id))
    assign .longTerm lt
    unlock .longTerm
    reply (.recalled (.ok results))

/-- The end of `consolidate`, with the older messages cut off and the guard of the short-term memory held. -/
def consolidateDigest (truncated : List Message) : MemoryTask φ Unit := do
  match ← ask (.getEmbedding (digest truncated)) with
  | .error e =>
    unlock .shortTerm
    reply (.consolidated (.error e))
  | .ok embedding =>
    let id := uuidV4Placeholder (← ask .systemTimeNow)
    let now := currentTimeMs (← ask .systemTimeNow)
    let entry : MemoryEntry φ :=
      { id, content := digest truncated, embedding, createdAtMs := now, lastAccessedAtMs := now, accessCount := 1,
        tags := ["consolidation_summary"], metadata := [("source", "consolidation")] }
    write .longTerm
    let lt : LongTermMemory φ ← deref .longTerm
    assign .longTerm (lt.insert entry)
    unlock .longTerm
    unlock .shortTerm
    reply (.consolidated (.ok (some id)))

/-- `consolidate` once it has the guard of the short-term memory, which it keeps while the provider is asked. -/
def consolidateHeld (keepRecent : Nat) (st : ShortTermMemory) : MemoryTask φ Unit :=
  if !st.needsConsolidation then do
    unlock .shortTerm
    reply (.consolidated (.ok none))
  else do
    let (truncated, st) := st.truncateOlder keepRecent
    assign .shortTerm st
    if truncated.isEmpty then do
      unlock .shortTerm
      reply (.consolidated (.ok none))
    else consolidateDigest truncated

/-- `consolidate`. -/
def consolidateTask (keepRecent : Nat) : MemoryTask φ Unit := do
  write .shortTerm
  let st : ShortTermMemory ← deref .shortTerm
  consolidateHeld keepRecent st

/-- The task of a call. -/
def MemoryRequest.task (F : Floats φ σ) : MemoryRequest φ → MemoryTask φ Unit
  | .addMessage role content metadata => addMessageTask role content metadata
  | .rememberFact fact tags metadata => rememberFactTask fact tags metadata
  | .recallEntries query limit minScore => recallTask F query limit minScore
  | .consolidate keepRecent => consolidateTask keepRecent

/-- The call by itself, as `AgentMemory` has it. -/
def MemoryRequest.run (F : Floats φ σ) (m : AgentMemorySystem φ) :
    MemoryRequest φ → MemoryProg φ (MemoryResult φ × AgentMemorySystem φ)
  | .addMessage role content metadata => do return (.added, ← m.addMessage role content metadata)
  | .rememberFact fact tags metadata => do
    let (result, m) ← m.rememberFact fact tags metadata
    return (.remembered result, m)
  | .recallEntries query limit minScore => do
    let (result, m) ← m.recallEntries F query limit minScore
    return (.recalled result, m)
  | .consolidate keepRecent => do
    let (result, m) ← m.consolidate keepRecent
    return (.consolidated result, m)

end Tasks

/-- The memory behind the locks. -/
def memoryOf {φ : Type} (data : (l : MemoryLock) → l.Data φ) : AgentMemorySystem φ :=
  { shortTerm := data .shortTerm, longTerm := data .longTerm }

/-- A memory behind locks. -/
def behindLocks {φ : Type} (m : AgentMemorySystem φ) : (l : MemoryLock) → l.Data φ
  | .shortTerm => m.shortTerm
  | .longTerm => m.longTerm

/-- The tasks of the memory in a state of a run. -/
abbrev MemoryTasks (φ : Type) : Type := Locked (MemoryLock.Data φ) (TaskCall.Answer φ) (MemoryRequest φ)

end ChainBridge.AgentMemory
