import ChainBridge.Lib.Pool
import ChainBridge.Solana

/-!
# The durable-nonce pool

`chain-bridge-persistence/src/nonce_store.rs`: `PostgresNonceStore` leases rows of the table `nonce_allocations`. An allocation
is one statement that marks a free row and returns it, and then the reading of its columns in the process; a release is one
statement. Any number of clients allocate and release side by side. A statement is atomic; one that answers with an error has
no effect, unless it was the answer that was lost on the way back.
-/

namespace ChainBridge

open Interleave

/-- The texts in the column `status`. -/
inductive NonceStatus where
  | free
  | leased
  | other (text : String)
  deriving DecidableEq

/-- A row of `nonce_allocations`; a text column may be null. -/
structure NonceRow where
  id : Int64
  status : NonceStatus
  nonceAccount : Option String
  nonceAuthority : Option String
  nonceValue : Option String
  deriving DecidableEq

/-- `NonceAllocation`. -/
structure NonceAllocation where
  id : Int64
  nonceAccount : Pubkey
  nonceAuthority : Pubkey
  nonceValue : Hash

/-- The parsers of `solana_sdk`. -/
structure NonceParsers where
  /-- `Pubkey::from_str`. -/
  pubkeyFromStr : String → Except String Pubkey
  /-- `Hash::from_str`. -/
  hashFromStr : String → Except String Hash

/-- The statements of the store, and what passes between a client and it. -/
inductive NonceCall where
  /-- The `UPDATE` that marks a free row, with its `RETURNING` columns. -/
  | claim
  /-- The `UPDATE` that frees a row. -/
  | free (id : Int64)
  /-- `allocate` returns to a client. -/
  | allocated (client : Nat) (result : Except String NonceAllocation)
  /-- A client calls `release`. -/
  | releasing (client : Nat) (id : Int64)

/-- The answers. -/
@[reducible] def NonceCall.Answer : NonceCall → Type
  | .claim => Except String (Option NonceRow)
  | .free _ => Except String Unit
  | .allocated _ _ => Unit
  | .releasing _ _ => Unit

/-- A call of the store, or a client's use of it. -/
abbrev NonceProg (α : Type) : Type := Prog NonceCall NonceCall.Answer α

/-- `row.try_get` of a text column. -/
def tryGet (column : String) : Option String → Except String String
  | some text => .ok text
  | none => .error ("error occurred while decoding column \"" ++ column ++ "\": unexpected null; try decoding as an `Option`")

/-- The reading of the row that was claimed: the columns first, then the parses. -/
def NonceRow.decode (N : NonceParsers) (row : NonceRow) : Except String NonceAllocation := do
  let account ← tryGet "nonce_account" row.nonceAccount
  let authority ← tryGet "nonce_authority" row.nonceAuthority
  let value ← tryGet "nonce_value" row.nonceValue
  let nonceAccount ← (N.pubkeyFromStr account).mapError ("bad nonce_account: " ++ ·)
  let nonceAuthority ← (N.pubkeyFromStr authority).mapError ("bad nonce_authority: " ++ ·)
  let nonceValue ← (N.hashFromStr value).mapError ("bad nonce_value: " ++ ·)
  return { id := row.id, nonceAccount, nonceAuthority, nonceValue }

namespace PostgresNonceStore

/-- What `allocate` makes of the answer to its statement. -/
def allocation (N : NonceParsers) : Except String (Option NonceRow) → Except String NonceAllocation
  | .error e => .error ("nonce allocate query failed: " ++ e)
  | .ok none => .error "durable-nonce pool exhausted or unseeded"
  | .ok (some row) => row.decode N

/-- `allocate`, which does not look at the name of the key; the error is the text of `ChainBridgeError::Nonce`. -/
def allocate (N : NonceParsers) (_keyName : String) : NonceProg (Except String NonceAllocation) := do
  return allocation N (← Prog.perform NonceCall.claim)

/-- `release`. -/
def release (id : Int64) : NonceProg (Except String Unit) := do
  return (← Prog.perform (NonceCall.free id)).mapError ("nonce release failed: " ++ ·)

end PostgresNonceStore

/-! ## The table -/

/-- A lease a client was given and has not released: the release may have been called, but its statement has not freed the
row. -/
structure Lease where
  client : Nat
  id : Int64
  releasing : Bool
  deriving DecidableEq

/-- The table, what the clients hold, and whether the answers of the table get lost. -/
structure NonceDb where
  rows : List NonceRow
  /-- `id` is the primary key. -/
  ids : (rows.map (·.id)).Nodup
  held : List Lease
  lost : Bool

/-- The ids that are held. -/
def NonceDb.heldIds (db : NonceDb) : List Int64 := db.held.map (·.id)

/-- The rows with one `id` given a status. -/
def setStatus (rows : List NonceRow) (id : Int64) (status : NonceStatus) : List NonceRow :=
  rows.map fun row => if row.id = id then { row with status } else row

theorem map_id_setStatus (rows : List NonceRow) (id : Int64) (status : NonceStatus) :
    (setStatus rows id status).map (·.id) = rows.map (·.id) := by
  rw [setStatus, List.map_map]
  refine List.map_congr_left fun row _ => ?_
  show (if row.id = id then _ else row : NonceRow).id = row.id
  split <;> rfl

/-- The table after a row was given a status. -/
def NonceDb.mark (db : NonceDb) (id : Int64) (status : NonceStatus) : NonceDb :=
  { db with rows := setStatus db.rows id status, ids := by rw [map_id_setStatus]; exact db.ids }

/-- The free rows. -/
def NonceDb.freeRows (db : NonceDb) : List NonceRow := db.rows.filter fun row => row.status = .free

/-- The leased rows. -/
def NonceDb.leasedRows (db : NonceDb) : List NonceRow := db.rows.filter fun row => row.status = .leased

/-- `ORDER BY id ASC LIMIT 1`. -/
def oldest : List NonceRow → Option NonceRow
  | [] => none
  | row :: rows =>
    match oldest rows with
    | none => some row
    | some best => if row.id ≤ best.id then some row else some best

/-- The oldest free row. -/
def NonceDb.oldestFree (db : NonceDb) : Option NonceRow := oldest db.freeRows

/-- The free row that is picked: the oldest, or the one asked for where the older ones are locked at the moment. -/
def NonceDb.pick (db : NonceDb) (unlocked : Option NonceRow) : Option NonceRow :=
  match unlocked with
  | some row => if row ∈ db.freeRows then some row else db.oldestFree
  | none => db.oldestFree

/-- The row an allocation marks: none where its statement fails, unless only the answer is lost. -/
def NonceDb.claimed (db : NonceDb) : Except String (Option NonceRow) → Option NonceRow
  | .ok unlocked => db.pick unlocked
  | .error _ => if db.lost then db.pick none else none

/-- The answer of an allocation's statement, and the table after it. -/
def NonceDb.serveClaim (db : NonceDb) (proposed : Except String (Option NonceRow)) :
    Except String (Option NonceRow) × NonceDb :=
  let row := db.claimed proposed
  (proposed.map fun _ => row.map fun row => { row with status := .leased }, (row.map fun row => db.mark row.id .leased).getD db)

/-- The answer of a release's statement, and the table after it. A lease ends when its row is freed; when the statement fails,
the client has it as before. -/
def NonceDb.serveFree (db : NonceDb) (id : Int64) (proposed : Except String Unit) : Except String Unit × NonceDb :=
  if proposed.isOk ∨ db.lost = true then
    (proposed, { db.mark id .free with held := db.held.filter fun l => l.id ≠ id })
  else (proposed, { db with held := db.held.map fun l => if l.id = id then { l with releasing := false } else l })

/-- The table answers its statements; what passes between a client and the store is noted. -/
def NonceDb.serve (db : NonceDb) : (c : NonceCall) → c.Answer → c.Answer × NonceDb
  | .claim, proposed => db.serveClaim proposed
  | .free id, proposed => db.serveFree id proposed
  | .allocated client (.ok a), _ => ((), { db with held := db.held ++ [⟨client, a.id, false⟩] })
  | .allocated _ (.error _), _ => ((), db)
  | .releasing client id, _ =>
    ((), { db with held := db.held.map fun l => if l.client = client ∧ l.id = id then { l with releasing := true } else l })

/-- The calls the clients make. -/
inductive NonceRequest where
  | allocate (client : Nat) (keyName : String)
  | release (client : Nat) (id : Int64)

/-- What happens around them: answers get lost from now on or come through again, and running calls are dropped. -/
inductive NonceMove where
  | connection (lost : Bool)
  | restart

/-- A client's call of the store. -/
def NonceRequest.start (N : NonceParsers) : NonceRequest → NonceProg Unit
  | .allocate client keyName => do Prog.perform (NonceCall.allocated client (← PostgresNonceStore.allocate N keyName))
  | .release client id => do
    Prog.perform (NonceCall.releasing client id)
    let _ ← PostgresNonceStore.release id
    return ()

/-- The table after a move. -/
def NonceDb.move (db : NonceDb) : NonceMove → NonceDb
  | .connection lost => { db with lost }
  | .restart => db

/-- The moves that drop the running calls. -/
def NonceMove.isRestart : NonceMove → Bool
  | .restart => true
  | _ => false

/-- The clients and the store side by side. -/
def nonceStore (N : NonceParsers) : System NonceCall NonceCall.Answer NonceDb NonceRequest NonceMove where
  start := NonceRequest.start N
  serve := NonceDb.serve
  env := fun db m => some (db.move m)
  cuts := NonceMove.isRestart

/-- The pool before the first call: any rows, and nothing held. -/
def NonceDb.seeded (rows : List NonceRow) (ids : (rows.map (·.id)).Nodup) : NonceDb := { rows, ids, held := [], lost := false }

/-- A step of the clients. -/
abbrev NonceLabel : Type := Label NonceCall.Answer NonceRequest NonceMove

/-- A state of the clients with its history. -/
abbrev NonceClients : Type := Pool NonceCall NonceCall.Answer NonceDb NonceRequest NonceMove

/-- A client calls `release` only for an id that was returned to it and that it has not released. -/
def ReleasesOwn (db : NonceDb) (_ : List NonceLabel) : NonceLabel → Prop
  | .call _ ⟨.releasing client id, _⟩ => ⟨client, id, false⟩ ∈ db.held
  | _ => True

end ChainBridge
