import ChainBridge.Context
import ChainBridge.Lib.Prog

/-!
# The audit trail

`chain-bridge-core/src/audit.rs` and the two adapters of `chain-bridge-persistence/src/postgres_audit.rs`. An entry is hashed
with the hash of the entry before it. The in-memory store appends under a lock, so an append is one function of the log. The
Postgres store makes two statements on a connection pool, the query for the tip and the insert, so an append is a program of
two calls that others may come between.
-/

namespace ChainBridge

open Interleave

/-- A 32-byte link of the audit chain. -/
structure AuditHash where
  bytes : Vector UInt8 32
  deriving DecidableEq

/-- `AuditEntry`: what happened, to whom and when. `prevHash` is for the adapter to fill. -/
structure AuditEntry where
  prevHash : Option AuditHash
  correlationId : String
  identity : String
  action : String
  outcome : AuditOutcome
  createdAtMs : UInt64
  deriving DecidableEq

/-- `AuditEntry::new`: an entry not linked yet. -/
def AuditEntry.new (correlationId identity action : String) (outcome : AuditOutcome) (createdAtMs : UInt64) : AuditEntry :=
  { prevHash := none, correlationId, identity, action, outcome, createdAtMs }

/-- `str::as_bytes`. -/
def strBytes (s : String) : Bytes := s.toUTF8.data.toList

/-- `u64::to_le_bytes`: the eight bytes of a number, the lowest first. -/
def leBytes (n : UInt64) : Bytes := (List.range 8).map fun i => UInt8.ofNat (n.toNat / 256 ^ i)

/-- The bytes of the link an entry is hashed with: the all-zero hash stands for the missing predecessor of the first entry. -/
def prevBytes (prev : Option AuditHash) : Bytes := ((prev.map (·.bytes)).getD (Vector.replicate 32 0)).toList

/-- `hashv`: SHA-256 of the concatenation of the slices. -/
def hashv (Γ : Ctx) (slices : List Bytes) : Vector UInt8 32 := Γ.sha256 slices.flatten

/-- The text of an outcome, empty when it does not serialize. -/
def outcomeText (Γ : Ctx) (o : AuditOutcome) : String := (Γ.outcomeJson o).toOption.getD ""

/-- `AuditEntry::entry_hash`: the hash of the previous link and of the fields of the entry, one after the other. -/
def AuditEntry.entryHash (Γ : Ctx) (e : AuditEntry) (prev : Option AuditHash) : AuditHash :=
  ⟨hashv Γ [prevBytes prev, strBytes e.correlationId, strBytes e.identity, strBytes e.action,
    strBytes (outcomeText Γ e.outcome), leBytes e.createdAtMs]⟩

/-! ## The in-memory store -/

/-- `InMemoryAuditStore`: the entries with their ids and hashes, oldest first. -/
abbrev InMemoryAuditStore : Type := List (Int × AuditHash × AuditEntry)

/-- `InMemoryAuditStore::latest_hash`. -/
def InMemoryAuditStore.latestHash (log : InMemoryAuditStore) : Option AuditHash := log.getLast?.map (·.2.1)

/-- `InMemoryAuditStore::append`, under the lock: the id returned and the log after it. -/
def InMemoryAuditStore.append (Γ : Ctx) (log : InMemoryAuditStore) (e : AuditEntry) : Int × InMemoryAuditStore :=
  let prev := log.latestHash
  let id := (log.length : Int) + 1
  (id, log ++ [(id, e.entryHash Γ prev, e)])

/-! ## The Postgres store -/

/-- A row of `audit_log`. -/
structure AuditRow where
  id : Int
  prevHash : Option Bytes
  entryHash : Bytes
  correlationId : String
  identity : String
  action : String
  outcomeJson : String
  createdAtMs : Int64
  deriving DecidableEq

/-- `hash_to_vec`. -/
def hashToVec (h : AuditHash) : Bytes := h.bytes.toList

/-- `vec_to_hash`: a stored hash of any other length than 32 is an error. -/
def vecToHash (v : Bytes) : Except String AuditHash :=
  if h : v.length = 32 then .ok ⟨⟨v.toArray, by simpa using h⟩⟩
  else .error ("audit hash has " ++ toString v.length ++ " bytes, expected 32")

/-- The statements of the Postgres store. The insert names the columns of a row; the table assigns the id. -/
inductive DbCall where
  | selectTip
  | insert (row : AuditRow)

/-- What a statement answers: the `entry_hash` of the last row, the id of the new row, or the database's error. -/
@[reducible] def DbCall.Answer : DbCall → Type
  | .selectTip => Except String (Option Bytes)
  | .insert _ => Except String Int

/-- `PostgresAuditStore::latest_hash`. -/
def postgresLatestHash : Prog DbCall DbCall.Answer (Except String (Option AuditHash)) := do
  match ← Prog.perform DbCall.selectTip with
  | .error e => return .error ("audit tip query failed: " ++ e)
  | .ok none => return .ok none
  | .ok (some bytes) =>
    match vecToHash bytes with
    | .error e => return .error e
    | .ok h => return .ok (some h)

/-- The row an append inserts, linked to the tip it read. -/
def linkedRow (Γ : Ctx) (e : AuditEntry) (prev : Option AuditHash) (json : String) : AuditRow :=
  { id := 0
    prevHash := prev.map hashToVec
    entryHash := hashToVec (e.entryHash Γ prev)
    correlationId := e.correlationId
    identity := e.identity
    action := e.action
    outcomeJson := json
    createdAtMs := e.createdAtMs.toInt64 }

/-- `PostgresAuditStore::append`: read the tip, hash the entry with it, insert the linked row. -/
def postgresAppend (Γ : Ctx) (e : AuditEntry) : Prog DbCall DbCall.Answer (Except String Int) := do
  match ← postgresLatestHash with
  | .error err => return .error err
  | .ok prev =>
    match Γ.outcomeJson e.outcome with
    | .error err => return .error ("serialize outcome: " ++ err)
    | .ok json =>
      match ← Prog.perform (DbCall.insert (linkedRow Γ e prev json)) with
      | .error err => return .error ("audit insert failed: " ++ err)
      | .ok id => return .ok id

end ChainBridge
