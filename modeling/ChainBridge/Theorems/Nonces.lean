import ChainBridge.Lemmas.Silent
import ChainBridge.Nonce
import Mathlib.Data.List.Nodup

/-!
# Allocations that fail

The store marks a row before it reads its columns, and an allocation that fails on what it reads leaves the row marked: it is
leased, and nobody can release it.
-/

namespace ChainBridge

open Interleave

/-- A row of the table is leased. -/
def NonceDb.Leased (db : NonceDb) (id : Int64) : Prop := ∃ row ∈ db.rows, row.id = id ∧ row.status = .leased

/-- The three texts of a row are there and parse. -/
structure NonceRow.Parses (N : NonceParsers) (row : NonceRow) : Prop where
  account : ∃ text key, row.nonceAccount = some text ∧ N.pubkeyFromStr text = .ok key
  authority : ∃ text key, row.nonceAuthority = some text ∧ N.pubkeyFromStr text = .ok key
  value : ∃ text hash, row.nonceValue = some text ∧ N.hashFromStr text = .ok hash

/-- An allocation that fails leaves the free and the leased rows as they were. -/
def FailsCleanly (N : NonceParsers) (keyName : String) (db : NonceDb) (env : (c : NonceCall) → c.Answer) : Prop :=
  ∀ e db', (PostgresNonceStore.allocate N keyName).against NonceDb.serve env db = (.error e, db') →
    db'.freeRows = db.freeRows ∧ db'.leasedRows = db.leasedRows

namespace NonceAux

open SilentAux

variable {N : NonceParsers} {db : NonceDb}

/-! ## The table -/

theorem mem_setStatus_of_ne {rows : List NonceRow} {row : NonceRow} {id : Int64} {status : NonceStatus} (h : row ∈ rows)
    (hne : row.id ≠ id) : row ∈ setStatus rows id status :=
  List.mem_map.mpr ⟨row, h, if_neg hne⟩

theorem mem_setStatus_self {rows : List NonceRow} {row : NonceRow} {status : NonceStatus} (h : row ∈ rows) :
    { row with status } ∈ setStatus rows row.id status :=
  List.mem_map.mpr ⟨row, h, if_pos rfl⟩

/-- The rows with the `id` that was given a status have it. -/
theorem status_of_mem_setStatus {rows : List NonceRow} {row : NonceRow} {id : Int64} {status : NonceStatus}
    (h : row ∈ setStatus rows id status) (hid : row.id = id) : row.status = status := by
  obtain ⟨row', -, rfl⟩ := List.mem_map.mp h
  by_cases h' : row'.id = id
  · rw [if_pos h']
  · rw [if_neg h'] at hid
    exact (h' hid).elim

/-- A row is known by its `id`. -/
theorem eq_of_id (db : NonceDb) {row row' : NonceRow} (h : row ∈ db.rows) (h' : row' ∈ db.rows) (hid : row.id = row'.id) :
    row = row' :=
  List.inj_on_of_nodup_map db.ids h h' hid

theorem mem_freeRows {row : NonceRow} : row ∈ db.freeRows ↔ row ∈ db.rows ∧ row.status = .free := by
  rw [NonceDb.freeRows, List.mem_filter, decide_eq_true_eq]

/-- A free row is not leased. -/
theorem id_ne_of_free {row : NonceRow} {id : Int64} (hfree : row ∈ db.freeRows) (hleased : db.Leased id) : id ≠ row.id := by
  rintro rfl
  obtain ⟨row', hrow', hid, hstatus⟩ := hleased
  obtain ⟨hrow, hstatus'⟩ := mem_freeRows.mp hfree
  rw [eq_of_id db hrow' hrow hid, hstatus'] at hstatus
  cases hstatus

theorem leased_mark_of_ne {id id' : Int64} {status : NonceStatus} (h : db.Leased id) (hne : id ≠ id') :
    (db.mark id' status).Leased id := by
  obtain ⟨row, hrow, rfl, hstatus⟩ := h
  exact ⟨row, mem_setStatus_of_ne hrow hne, rfl, hstatus⟩

theorem leased_mark_self {row : NonceRow} (h : row ∈ db.rows) : (db.mark row.id .leased).Leased row.id :=
  ⟨_, mem_setStatus_self h, rfl, rfl⟩

theorem oldest_mem {rows : List NonceRow} {row : NonceRow} (h : oldest rows = some row) : row ∈ rows := by
  induction rows generalizing row with
  | nil => cases h
  | cons first rows ih =>
    simp only [oldest] at h
    split at h
    · cases h
      exact List.mem_cons_self
    · rename_i best hbest
      split at h
      · cases h
        exact List.mem_cons_self
      · cases h
        exact List.mem_cons_of_mem _ (ih hbest)

/-- What an allocation marks is a free row. -/
theorem claimed_free {proposed : Except String (Option NonceRow)} {row : NonceRow} (h : db.claimed proposed = some row) :
    row ∈ db.freeRows := by
  have hpick : ∀ unlocked, db.pick unlocked = some row → row ∈ db.freeRows := by
    intro unlocked hp
    cases unlocked with
    | none => exact oldest_mem hp
    | some asked =>
      simp only [NonceDb.pick] at hp
      split at hp
      · rename_i hasked
        cases hp
        exact hasked
      · exact oldest_mem hp
  cases proposed with
  | ok unlocked => exact hpick unlocked h
  | error e =>
    simp only [NonceDb.claimed] at h
    split at h
    · exact hpick none h
    · cases h

/-! ## The reading of a row -/

theorem tryGet_ok {column : String} {value : Option String} {text : String} (h : tryGet column value = .ok text) :
    value = some text := by
  cases value with
  | none => cases h
  | some text' =>
    cases h
    rfl

/-- An allocation that succeeds has the `id` of its row, whose texts parse. -/
theorem decode_ok {row : NonceRow} {a : NonceAllocation} (h : row.decode N = .ok a) : a.id = row.id ∧ row.Parses N := by
  obtain ⟨account, haccount, h₁⟩ := ok_bind h
  obtain ⟨authority, hauthority, h₂⟩ := ok_bind h₁
  obtain ⟨value, hvalue, h₃⟩ := ok_bind h₂
  obtain ⟨key, hkey, h₄⟩ := ok_bind h₃
  obtain ⟨key', hkey', h₅⟩ := ok_bind h₄
  obtain ⟨hash, hhash, h₆⟩ := ok_bind h₅
  cases h₆
  exact ⟨rfl, ⟨account, key, tryGet_ok haccount, ok_of_mapError hkey⟩, ⟨authority, key', tryGet_ok hauthority, ok_of_mapError hkey'⟩,
    ⟨value, hash, tryGet_ok hvalue, ok_of_mapError hhash⟩⟩

/-- A row whose texts parse gives an allocation. -/
theorem exists_decode {row : NonceRow} (h : row.Parses N) : ∃ a, row.decode N = .ok a := by
  obtain ⟨account, key, haccount, hkey⟩ := h.account
  obtain ⟨authority, key', hauthority, hkey'⟩ := h.authority
  obtain ⟨value, hash, hvalue, hhash⟩ := h.value
  refine ⟨⟨row.id, key, key', hash⟩, ?_⟩
  simp only [NonceRow.decode, haccount, hauthority, hvalue, tryGet, bind, Except.bind, hkey, hkey', hhash, Except.mapError]
  rfl

/-! ## One allocation -/

/-- What one allocation does to the table, and what it returns. -/
theorem against_allocate (keyName : String) (env : (c : NonceCall) → c.Answer) :
    (PostgresNonceStore.allocate N keyName).against NonceDb.serve env db =
      (PostgresNonceStore.allocation N (db.serveClaim (env .claim)).1, (db.serveClaim (env .claim)).2) := rfl

/-- A statement that marks no row leaves the table. -/
theorem serveClaim_none {proposed : Except String (Option NonceRow)} (h : db.claimed proposed = none) :
    (db.serveClaim proposed).2 = db := by
  simp only [NonceDb.serveClaim, h, Option.map_none, Option.getD_none]

/-- A statement that marks a row answers with it, unless the answer is lost. -/
theorem serveClaim_some {proposed : Except String (Option NonceRow)} {row : NonceRow} (h : db.claimed proposed = some row) :
    db.serveClaim proposed =
      (proposed.map fun _ => some { row with status := .leased }, db.mark row.id .leased) := by
  simp only [NonceDb.serveClaim, h, Option.map_some, Option.getD_some]

/-- A row that was marked is no longer free. -/
theorem freeRows_mark_ne {row : NonceRow} (h : row ∈ db.freeRows) : (db.mark row.id .leased).freeRows ≠ db.freeRows := by
  intro heq
  rw [← heq] at h
  obtain ⟨hrow, hstatus⟩ := mem_freeRows.mp h
  rw [status_of_mem_setStatus hrow rfl] at hstatus
  cases hstatus

/-- What `allocate` makes of a row that was marked is an error exactly when the answer is lost or a text does not parse. -/
theorem exists_allocation_iff {proposed : Except String (Option NonceRow)} {row : NonceRow} :
    (∃ a, PostgresNonceStore.allocation N (proposed.map fun _ => some { row with status := .leased }) = .ok a) ↔
      proposed.isOk = true ∧ row.Parses N := by
  cases proposed with
  | error e =>
    refine iff_of_false ?_ (fun h => by cases h.1)
    rintro ⟨a, h⟩
    cases h
  | ok unlocked =>
    constructor
    · rintro ⟨a, h⟩
      have hparses := (decode_ok h).2
      exact ⟨rfl, hparses.account, hparses.authority, hparses.value⟩
    · rintro ⟨-, h⟩
      exact exists_decode ⟨h.account, h.authority, h.value⟩

end NonceAux

open NonceAux

/-- An allocation that fails leaves the pool as it was if and only if its statement marks no row, or its answer arrives and the
texts of the row that it marks are there and parse. -/
theorem failed_allocation_clean_iff (N : NonceParsers) (keyName : String) (db : NonceDb) (env : (c : NonceCall) → c.Answer) :
    FailsCleanly N keyName db env ↔ ∀ row, db.claimed (env .claim) = some row → (env .claim).isOk = true ∧ row.Parses N := by
  unfold FailsCleanly
  rw [against_allocate]
  cases hclaimed : db.claimed (env .claim) with
  | none =>
    refine iff_of_true (fun e db' h => ?_) (fun row h => by cases h)
    have hdb' : db' = db := (congrArg Prod.snd h).symm.trans (serveClaim_none hclaimed)
    rw [hdb']
    exact ⟨rfl, rfl⟩
  | some row =>
    rw [serveClaim_some hclaimed]
    constructor
    · intro hclean row' hrow'
      cases hrow'
      cases hresult : PostgresNonceStore.allocation N ((env .claim).map fun _ => some { row with status := .leased }) with
      | ok a => exact exists_allocation_iff.mp ⟨a, hresult⟩
      | error e =>
        rw [hresult] at hclean
        exact (freeRows_mark_ne (claimed_free hclaimed) (hclean e _ rfl).1).elim
    · intro hparses e db' h
      obtain ⟨a, ha⟩ := exists_allocation_iff.mpr (hparses row rfl)
      rw [ha] at h
      cases h

namespace NonceAux

/-- The base58 text of 32 zero bytes. -/
def zeros : String := "11111111111111111111111111111111"

/-- Parsers that know the text of 32 zero bytes. -/
def zeroParsers : NonceParsers where
  pubkeyFromStr := fun s => if s = zeros then .ok ⟨Vector.replicate 32 0⟩ else .error "String is the wrong size"
  hashFromStr := fun s => if s = zeros then .ok ⟨Vector.replicate 32 0⟩ else .error "string decoded to wrong size for hash"

/-- A free row, with the text of its account. -/
def freeRow (id : Int64) (account : String) : NonceRow :=
  { id, status := .free, nonceAccount := some account, nonceAuthority := some zeros, nonceValue := some zeros }

/-- A pool of one row whose account was entered as an empty text. -/
def badPool : NonceDb := .seeded [freeRow 1 ""] (by decide)

/-- The statements are carried out and their answers come through. -/
def carriedOut : (c : NonceCall) → c.Answer
  | .claim => .ok none
  | .free _ => .ok ()
  | .allocated _ _ => ()
  | .releasing _ _ => ()

end NonceAux

/-- Not every allocation that fails leaves the pool as it was: one that marks a row with a bad account drains the pool of
it. -/
theorem failed_allocation_drains : ¬∀ (N : NonceParsers) (keyName : String) (db : NonceDb) (env : (c : NonceCall) → c.Answer),
    FailsCleanly N keyName db env := by
  intro hall
  have hrow : freeRow 1 "" ∈ badPool.freeRows := List.mem_cons_self
  have hrun : (PostgresNonceStore.allocate zeroParsers "gridtokenx-bridge").against NonceDb.serve carriedOut badPool =
      (.error "bad nonce_account: String is the wrong size", badPool.mark 1 .leased) := rfl
  exact freeRows_mark_ne hrow (hall _ _ _ _ _ _ hrun).1

end ChainBridge
