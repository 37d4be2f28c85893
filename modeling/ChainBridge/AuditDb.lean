import ChainBridge.Audit
import ChainBridge.Lib.Chain
import ChainBridge.Lib.Pool

/-!
# Concurrent appends to `audit_log`

The table behind the Postgres store, and the appends that run against it side by side: each makes its two statements on a
connection of the pool, so any statement of another append may come between them. A statement is atomic; the table assigns
increasing ids, with gaps where it likes. A statement that answers with an error has no effect, unless it was the answer that
was lost on the way back.
-/

namespace ChainBridge

open Interleave

/-- The table, its rows in the order of their ids, and the connections to it. -/
structure AuditDb where
  rows : List AuditRow
  /-- The answers of the table get lost; the id a row inserted meanwhile gets. -/
  lost : Option Int

/-- `audit_log` as its migration leaves it. -/
def AuditDb.empty : AuditDb := { rows := [], lost := none }

/-- `ORDER BY id DESC LIMIT 1`: the `entry_hash` of the last row. -/
def AuditDb.tip (db : AuditDb) : Option Bytes := db.rows.getLast?.map (·.entryHash)

/-- The id of the next row: the one the sequence is at, which is beyond those of all rows. -/
def AuditDb.nextId (db : AuditDb) (sequence : Int) : Int :=
  match db.rows.getLast? with
  | none => sequence
  | some row => max sequence (row.id + 1)

/-- The table after the insert of a row. -/
def AuditDb.insertRow (db : AuditDb) (row : AuditRow) (id : Int) : AuditDb :=
  { db with rows := db.rows ++ [{ row with id }] }

/-- The answer to a statement and the table after it. The environment says where the sequence is, and which statements fail. -/
def AuditDb.serve (db : AuditDb) : (c : DbCall) → c.Answer → c.Answer × AuditDb
  | .selectTip, .ok _ => (.ok db.tip, db)
  | .selectTip, .error e => (.error e, db)
  | .insert row, .ok sequence => (.ok (db.nextId sequence), db.insertRow row (db.nextId sequence))
  | .insert row, .error e =>
    match db.lost with
    | none => (.error e, db)
    | some sequence => (.error e, db.insertRow row (db.nextId sequence))

/-- What happens around the appends. -/
inductive DbMove where
  /-- Answers get lost from now on, or come through again. -/
  | connection (lost : Option Int)
  /-- The process is restarted: every append is dropped where it stands. -/
  | restart

/-- The table after a move. -/
def AuditDb.move (db : AuditDb) : DbMove → AuditDb
  | .connection lost => { db with lost }
  | .restart => db

/-- The moves that drop the running appends. -/
def DbMove.isRestart : DbMove → Bool
  | .restart => true
  | _ => false

/-- `PostgresAuditStore::append` for each entry, side by side. -/
def auditLog (Γ : Ctx) : System DbCall DbCall.Answer AuditDb AuditEntry DbMove where
  start := fun e => do
    let _ ← postgresAppend Γ e
    return ()
  serve := AuditDb.serve
  env := fun db m => some (db.move m)
  cuts := DbMove.isRestart

/-- A step of the appends. -/
abbrev DbLabel : Type := Label DbCall.Answer AuditEntry DbMove

/-- A state of the appends with its history. -/
abbrev DbPool : Type := Pool DbCall DbCall.Answer AuditDb AuditEntry DbMove

/-! ## The chain in the table -/

/-- The fields of a row, as `entry_hash` hashes them. -/
def AuditRow.fieldBytes (r : AuditRow) : Bytes :=
  strBytes r.correlationId ++ strBytes r.identity ++ strBytes r.action ++ strBytes r.outcomeJson ++
    leBytes r.createdAtMs.toUInt64

/-- `entry_hash` on stored columns: the `entry_hash` of the row before, and the fields of the row. -/
def rowLink (Γ : Ctx) (prev : Option Bytes) (fields : Bytes) : Bytes :=
  (hashv Γ [prev.getD (List.replicate 32 0), fields]).toList

/-- The two links stored in a row, and its fields. -/
def AuditRow.stored (r : AuditRow) : Option Bytes × Bytes × Bytes := (r.prevHash, r.entryHash, r.fieldBytes)

/-- The rows form one chain: the first has no `prev_hash`, each later one has the `entry_hash` of the row before it, and every
`entry_hash` is the one recomputed from the `prev_hash` and the fields of its row. -/
def Chained (Γ : Ctx) (rows : List AuditRow) : Prop := HashChain.Linked (rowLink Γ) none (rows.map (·.stored))

/-! ## Appends that are not overtaken -/

/-- Whether a step inserts a row, where answers get lost or not. -/
def inserts (lost : Bool) : DbLabel → Bool
  | .call _ ⟨.insert _, .ok _⟩ => true
  | .call _ ⟨.insert _, .error _⟩ => lost
  | _ => false

/-- What is known of an append after one more step: whether answers get lost, and whether a row was inserted since the append
read the tip. -/
def overtakenStep (t : Nat) (s : Bool × Bool) : DbLabel → Bool × Bool
  | .env (.connection lost) => (lost.isSome, s.2)
  | .call t' ⟨.selectTip, _⟩ => (s.1, if t' = t then false else s.2)
  | l => (s.1, s.2 || inserts s.1 l)

/-- What is known of an append after a history. -/
def overtaken (t : Nat) (log : List DbLabel) : Bool × Bool := log.foldl (overtakenStep t) (false, false)

/-- An append inserts its row only when no row was inserted since it read the tip. -/
def NotOvertaken (db : AuditDb) (log : List DbLabel) (l : DbLabel) : Prop :=
  ∀ t e, l = .call t e → inserts db.lost.isSome l = true → (overtaken t log).2 = false

end ChainBridge
