import ChainBridge.AuditDb
import ChainBridge.Lemmas.Sample

/-!
# The two audit adapters

`AuditPort` promises one log, whichever adapter is behind it: an append stamps the entry with the hash of the tip and returns the
next id. The in-memory store hashes each entry with the tip but keeps the entry as it came, so the link it records is the one the
caller left in the entry. Everything else of the two adapters agrees, append by append.
-/

namespace ChainBridge

open Interleave

/-- `AuditPort`: an append returns an id, and the tip is asked for. -/
structure AuditPort (σ : Type) where
  append : AuditEntry → σ → Except String Int × σ
  latestHash : σ → Except String (Option AuditHash)

/-- Append entries one after another: the id and the tip after each append, and the log after all of them. -/
def AuditPort.appendAll {σ : Type} (port : AuditPort σ) :
    List AuditEntry → σ → List (Except String Int × Except String (Option AuditHash)) × σ
  | [], s => ([], s)
  | e :: es, s =>
    let out := port.append e s
    let rest := port.appendAll es out.2
    ((out.1, port.latestHash out.2) :: rest.1, rest.2)

/-- A database that answers every statement; its ids start at 1 and increase by one. -/
def healthyDb : (c : DbCall) → c.Answer
  | .selectTip => .ok none
  | .insert _ => .ok 1

/-- `InMemoryAuditStore` as a port. -/
def inMemoryAuditStore (Γ : Ctx) : AuditPort InMemoryAuditStore where
  append := fun e log => (.ok (log.append Γ e).1, (log.append Γ e).2)
  latestHash := fun log => .ok log.latestHash

/-- `PostgresAuditStore` as a port, with no other append on the table. -/
def postgresAuditStore (Γ : Ctx) : AuditPort AuditDb where
  append := fun e db => (postgresAppend Γ e).against AuditDb.serve healthyDb db
  latestHash := fun db => (postgresLatestHash.against AuditDb.serve healthyDb db).1

/-- The link and the hash that the in-memory store records for each entry, with the entry. -/
def InMemoryAuditStore.records (log : InMemoryAuditStore) : List (Option AuditHash × AuditHash × AuditEntry) :=
  log.map fun r => (r.2.2.prevHash, r.2.1, r.2.2)

/-- A link and a hash as the columns of `audit_log` hold them. -/
def columns (r : Option AuditHash × AuditHash × AuditEntry) : Option Bytes × Bytes := (r.1.map hashToVec, hashToVec r.2.1)

/-- The link and the hash that the table records for each entry. -/
def AuditDb.links (db : AuditDb) : List (Option Bytes × Bytes) := db.rows.map fun r => (r.prevHash, r.entryHash)

/-- The link of an entry to the tip. -/
abbrev entryLink (Γ : Ctx) (tip : Option AuditHash) (e : AuditEntry) : AuditHash := e.entryHash Γ tip

/-- The two adapters, from empty, are one linked log: the same ids and tips, the same links and hashes, and each link is the hash
of the entry before. -/
structure SameLog (Γ : Ctx) (entries : List AuditEntry) : Prop where
  observed : ((inMemoryAuditStore Γ).appendAll entries []).1 = ((postgresAuditStore Γ).appendAll entries .empty).1
  recorded : ((inMemoryAuditStore Γ).appendAll entries []).2.records.map columns =
    ((postgresAuditStore Γ).appendAll entries .empty).2.links
  linked : HashChain.Linked (entryLink Γ) none ((inMemoryAuditStore Γ).appendAll entries []).2.records

/-- The entries come linked: each carries the hash of the one before it, from a tip on. -/
def Prelinked (Γ : Ctx) : Option AuditHash → List AuditEntry → Prop
  | _, [] => True
  | tip, e :: es => e.prevHash = tip ∧ Prelinked Γ (some (e.entryHash Γ tip)) es

/-! ## The log the port promises -/

/-- The log that `AuditPort` promises: every entry is stored with the tip it was appended to and its hash. -/
structure LinkedLog (Γ : Ctx) where
  records : List (Option AuditHash × AuditHash × AuditEntry)
  linked : HashChain.Linked (entryLink Γ) none records

/-- The tip of the log. -/
def LinkedLog.tip {Γ : Ctx} (log : LinkedLog Γ) : Option AuditHash := HashChain.lastLink none log.records

/-- The empty log. -/
def LinkedLog.fresh {Γ : Ctx} : LinkedLog Γ := ⟨[], trivial⟩

/-- An append stamps the entry with the tip. -/
def LinkedLog.append {Γ : Ctx} (log : LinkedLog Γ) (e : AuditEntry) : LinkedLog Γ where
  records := log.records ++ [(log.tip, e.entryHash Γ log.tip, e)]
  linked := HashChain.linked_concat_iff.mpr ⟨log.linked, rfl, rfl⟩

/-- The promised log as a port. -/
def linkedLog (Γ : Ctx) : AuditPort (LinkedLog Γ) where
  append := fun e log => (.ok ((log.records.length : Int) + 1), log.append e)
  latestHash := fun log => .ok log.tip

namespace AdaptersAux

variable {Γ : Ctx}

/-- Runs that stay related return the same ids and tips, when each append of related logs returns the same id, leaves the same tip
and keeps them related. -/
theorem appendAll_simulates {σ τ : Type} {port : AuditPort σ} {port' : AuditPort τ} {R : σ → τ → Prop} {K : AuditEntry → Prop}
    (hstep : ∀ e s s', K e → R s s' → (port.append e s).1 = (port'.append e s').1 ∧
      port.latestHash (port.append e s).2 = port'.latestHash (port'.append e s').2 ∧ R (port.append e s).2 (port'.append e s').2)
    {es : List AuditEntry} (hes : ∀ e ∈ es, K e) {s : σ} {s' : τ} (hs : R s s') :
    (port.appendAll es s).1 = (port'.appendAll es s').1 ∧ R (port.appendAll es s).2 (port'.appendAll es s').2 := by
  induction es generalizing s s' with
  | nil => exact ⟨rfl, hs⟩
  | cons e es ih =>
    obtain ⟨he, hes⟩ := List.forall_mem_cons.mp hes
    obtain ⟨hid, htip, hnext⟩ := hstep e s s' he hs
    obtain ⟨hrest, hlast⟩ := ih hes hnext
    refine ⟨?_, hlast⟩
    simp only [AuditPort.appendAll, hid, htip, hrest]

/-- The entries of the promised log. -/
theorem entries_appendAll (es : List AuditEntry) (log : LinkedLog Γ) :
    ((linkedLog Γ).appendAll es log).2.records.map (·.2.2) = log.records.map (·.2.2) ++ es := by
  induction es generalizing log with
  | nil => exact (List.append_nil _).symm
  | cons e es ih =>
    show ((linkedLog Γ).appendAll es (log.append e)).2.records.map (·.2.2) = _
    rw [ih]
    simp [LinkedLog.append]

theorem entries_fresh (es : List AuditEntry) :
    ((linkedLog Γ).appendAll es .fresh).2.records.map (·.2.2) = es :=
  entries_appendAll es .fresh

/-! ## The in-memory store -/

/-- The in-memory store has the hashes and the entries of the promised log. -/
def HashesOf (log : InMemoryAuditStore) (linked : LinkedLog Γ) : Prop := log.map (·.2) = linked.records.map (·.2)

theorem HashesOf.latestHash {log : InMemoryAuditStore} {linked : LinkedLog Γ} (h : HashesOf log linked) :
    log.latestHash = linked.tip := by
  have hlast : (log.map (·.2)).getLast?.map (·.1) = (linked.records.map (·.2)).getLast?.map (·.1) := by rw [h]
  rw [List.getLast?_map, List.getLast?_map, Option.map_map, Option.map_map] at hlast
  rw [InMemoryAuditStore.latestHash, LinkedLog.tip, HashChain.lastLink, Option.or_none]
  exact hlast

theorem HashesOf.append {log : InMemoryAuditStore} {linked : LinkedLog Γ} (h : HashesOf log linked) (e : AuditEntry) :
    HashesOf (log.append Γ e).2 (linked.append e) := by
  simp only [HashesOf, InMemoryAuditStore.append, LinkedLog.append, List.map_append, h.latestHash]
  rw [h]
  rfl

theorem memory_step (e : AuditEntry) (log : InMemoryAuditStore) (linked : LinkedLog Γ) (h : HashesOf log linked) :
    ((inMemoryAuditStore Γ).append e log).1 = ((linkedLog Γ).append e linked).1 ∧
      (inMemoryAuditStore Γ).latestHash ((inMemoryAuditStore Γ).append e log).2 =
        (linkedLog Γ).latestHash ((linkedLog Γ).append e linked).2 ∧
      HashesOf ((inMemoryAuditStore Γ).append e log).2 ((linkedLog Γ).append e linked).2 := by
  have hlength : log.length = linked.records.length := by simpa using congrArg List.length h
  have hnext := h.append e
  refine ⟨?_, ?_, hnext⟩
  · show Except.ok ((log.length : Int) + 1) = .ok ((linked.records.length : Int) + 1)
    rw [hlength]
  · exact congrArg Except.ok hnext.latestHash

theorem memory_appendAll (Γ : Ctx) (es : List AuditEntry) :
    ((inMemoryAuditStore Γ).appendAll es []).1 = ((linkedLog Γ).appendAll es .fresh).1 ∧
      HashesOf ((inMemoryAuditStore Γ).appendAll es []).2 ((linkedLog Γ).appendAll es .fresh).2 :=
  appendAll_simulates (K := fun _ => True) (fun e log linked _ h => memory_step e log linked h) (fun _ _ => trivial) rfl

theorem HashesOf.entries {log : InMemoryAuditStore} {linked : LinkedLog Γ} (h : HashesOf log linked) :
    log.map (·.2.2) = linked.records.map (·.2.2) := by
  have hmap := congrArg (List.map fun r => r.2) h
  rw [List.map_map, List.map_map] at hmap
  exact hmap

/-- The links of the in-memory store are those the entries carry. -/
theorem HashesOf.records {log : InMemoryAuditStore} {linked : LinkedLog Γ} (h : HashesOf log linked) :
    log.records = linked.records.map fun r => (r.2.2.prevHash, r.2) := by
  have hmap := congrArg (List.map fun r => (r.2.prevHash, r)) h
  rw [List.map_map, List.map_map] at hmap
  exact hmap

/-! ## The Postgres store -/

/-- A hash that was stored is read back. -/
theorem vecToHash_hashToVec (h : AuditHash) : vecToHash (hashToVec h) = .ok h := by
  have hlength : (hashToVec h).length = 32 := Vector.length_toList
  rw [vecToHash, dif_pos hlength]
  rfl

/-- The table has the links and the hashes of the promised log, and its next id is the next position. -/
structure ColumnsOf (db : AuditDb) (linked : LinkedLog Γ) : Prop where
  links : db.links = linked.records.map columns
  nextId : db.nextId 1 = (linked.records.length : Int) + 1

theorem ColumnsOf.tip {db : AuditDb} {linked : LinkedLog Γ} (h : ColumnsOf db linked) : db.tip = linked.tip.map hashToVec := by
  have hlast : db.links.getLast?.map (·.2) = (linked.records.map columns).getLast?.map (·.2) := by rw [h.links]
  rw [AuditDb.links, List.getLast?_map, List.getLast?_map, Option.map_map, Option.map_map] at hlast
  rw [AuditDb.tip, LinkedLog.tip, HashChain.lastLink, Option.or_none, Option.map_map]
  exact hlast

theorem ColumnsOf.latestHash {db : AuditDb} {linked : LinkedLog Γ} (h : ColumnsOf db linked) :
    postgresLatestHash.against AuditDb.serve healthyDb db = (.ok linked.tip, db) := by
  have hask : (Prog.perform DbCall.selectTip).against AuditDb.serve healthyDb db = (.ok (linked.tip.map hashToVec), db) := by
    rw [← h.tip]
    rfl
  rw [postgresLatestHash, Prog.against_bind, hask]
  cases linked.tip with
  | none => rfl
  | some hash =>
    simp only [Option.map_some, vecToHash_hashToVec]
    rfl

theorem ColumnsOf.insert {db : AuditDb} {linked : LinkedLog Γ} (h : ColumnsOf db linked) (e : AuditEntry) (json : String) :
    ColumnsOf (db.insertRow (linkedRow Γ e linked.tip json) (db.nextId 1)) (linked.append e) := by
  have hlinks := h.links
  constructor
  · simp only [AuditDb.links, AuditDb.insertRow, LinkedLog.append, List.map_append] at hlinks ⊢
    rw [hlinks]
    rfl
  · simp only [AuditDb.nextId, AuditDb.insertRow, List.getLast?_concat, LinkedLog.append, List.length_append, List.length_singleton]
    have hid := h.nextId
    simp only [AuditDb.nextId] at hid
    rw [hid]
    omega

theorem postgres_step (e : AuditEntry) (db : AuditDb) (linked : LinkedLog Γ) (hjson : (Γ.outcomeJson e.outcome).isOk = true)
    (h : ColumnsOf db linked) :
    ((postgresAuditStore Γ).append e db).1 = ((linkedLog Γ).append e linked).1 ∧
      (postgresAuditStore Γ).latestHash ((postgresAuditStore Γ).append e db).2 =
        (linkedLog Γ).latestHash ((linkedLog Γ).append e linked).2 ∧
      ColumnsOf ((postgresAuditStore Γ).append e db).2 ((linkedLog Γ).append e linked).2 := by
  obtain ⟨json, hjson⟩ : ∃ json, Γ.outcomeJson e.outcome = .ok json := by
    cases hserialized : Γ.outcomeJson e.outcome with
    | error err =>
      rw [hserialized] at hjson
      cases hjson
    | ok json => exact ⟨json, rfl⟩
  have hrun : (postgresAuditStore Γ).append e db =
      (.ok (db.nextId 1), db.insertRow (linkedRow Γ e linked.tip json) (db.nextId 1)) := by
    show (postgresAppend Γ e).against AuditDb.serve healthyDb db = _
    rw [postgresAppend, Prog.against_bind, h.latestHash]
    simp only [hjson]
    rfl
  have hnext := h.insert e json
  rw [hrun]
  refine ⟨congrArg Except.ok h.nextId, ?_, hnext⟩
  show (postgresLatestHash.against AuditDb.serve healthyDb _).1 = _
  rw [hnext.latestHash]
  rfl

theorem postgres_appendAll (Γ : Ctx) {es : List AuditEntry} (hjson : ∀ e ∈ es, (Γ.outcomeJson e.outcome).isOk = true) :
    ((postgresAuditStore Γ).appendAll es .empty).1 = ((linkedLog Γ).appendAll es .fresh).1 ∧
      ColumnsOf ((postgresAuditStore Γ).appendAll es .empty).2 ((linkedLog Γ).appendAll es .fresh).2 :=
  appendAll_simulates (fun e db linked hjson h => postgres_step e db linked hjson h) hjson ⟨rfl, rfl⟩

/-! ## The links the in-memory store records -/

/-- In a linked log, the links the entries carry are the stored ones exactly when the entries come linked. -/
theorem records_eq_of_prelinked {tip : Option AuditHash} {records : List (Option AuditHash × AuditHash × AuditEntry)}
    (hlinked : HashChain.Linked (entryLink Γ) tip records) (h : Prelinked Γ tip (records.map (·.2.2))) :
    records.map (fun r => (r.2.2.prevHash, r.2)) = records := by
  induction records generalizing tip with
  | nil => rfl
  | cons r records ih =>
    obtain ⟨p, hash, e⟩ := r
    obtain ⟨rfl, rfl, hrest⟩ := hlinked
    obtain ⟨he, hes⟩ := h
    rw [List.map_cons, ih hrest hes, he]

theorem prelinked_of_linked {tip : Option AuditHash} {log : InMemoryAuditStore}
    (h : HashChain.Linked (entryLink Γ) tip log.records) : Prelinked Γ tip (log.map (·.2.2)) := by
  induction log generalizing tip with
  | nil => trivial
  | cons r log ih =>
    obtain ⟨hprev, hhash, hrest⟩ := h
    rw [hhash] at hrest
    exact ⟨hprev, ih hrest⟩

/-- Entries that come unlinked are linked only when there is at most one. -/
theorem prelinked_iff_of_unlinked {es : List AuditEntry} (h : ∀ e ∈ es, e.prevHash = none) :
    Prelinked Γ none es ↔ es.length ≤ 1 := by
  rcases es with _ | ⟨e, _ | ⟨e', es⟩⟩
  · simp [Prelinked]
  · simp [Prelinked, h e]
  · simp [Prelinked, h e']

end AdaptersAux

open AdaptersAux in
/-- The two adapters, appended to from empty, are the promised log exactly when the entries come linked; entries that come unlinked,
as every caller makes them, are so only when there is at most one. -/
theorem adapters_agree_iff (Γ : Ctx) (entries : List AuditEntry) (hjson : ∀ e ∈ entries, (Γ.outcomeJson e.outcome).isOk = true) :
    (SameLog Γ entries ↔ Prelinked Γ none entries) ∧
      ((∀ e ∈ entries, e.prevHash = none) → (SameLog Γ entries ↔ entries.length ≤ 1)) := by
  obtain ⟨hmemory, hhashes⟩ := memory_appendAll Γ entries
  obtain ⟨hpostgres, hcolumns⟩ := postgres_appendAll Γ hjson
  have hiff : SameLog Γ entries ↔ Prelinked Γ none entries := by
    constructor
    · intro h
      have hentries := prelinked_of_linked h.linked
      rwa [hhashes.entries, entries_fresh] at hentries
    · intro h
      have hlog := ((linkedLog Γ).appendAll entries .fresh).2.linked
      have hrecords := records_eq_of_prelinked hlog (by rwa [entries_fresh])
      rw [← hhashes.records] at hrecords
      refine ⟨hmemory.trans hpostgres.symm, ?_, ?_⟩
      · rw [hrecords, hcolumns.links]
      · rw [hrecords]
        exact hlog
  exact ⟨hiff, fun hunlinked => hiff.trans (prelinked_iff_of_unlinked hunlinked)⟩

open SampleAux in
/-- The second entry of the sample trail when it comes linked to the first, and the first by itself as a caller makes it: the two
adapters agree. -/
theorem sample_entries_agree : SameLog auditCtx [first, { second with prevHash := some ⟨firstDigest⟩ }] ∧
    SameLog auditCtx [first] := by
  have hjson : ∀ e ∈ [first, { second with prevHash := some ⟨firstDigest⟩ }], (auditCtx.outcomeJson e.outcome).isOk = true := by
    decide
  have hlinked : Prelinked auditCtx none [first, { second with prevHash := some ⟨firstDigest⟩ }] :=
    ⟨rfl, by decide +kernel, trivial⟩
  have hjson₁ : ∀ e ∈ [first], (auditCtx.outcomeJson e.outcome).isOk = true := by decide
  have hunlinked : ∀ e ∈ [first], e.prevHash = none := by decide
  exact ⟨(adapters_agree_iff auditCtx _ hjson).1.mpr hlinked,
    ((adapters_agree_iff auditCtx [first] hjson₁).2 hunlinked).mpr (Nat.le_refl 1)⟩

open AdaptersAux SampleAux in
/-- Two entries as a caller makes them: the in-memory store records no link for the second one. -/
theorem second_entry_unlinked : ¬∀ (Γ : Ctx) (entries : List AuditEntry),
    (∀ e ∈ entries, (Γ.outcomeJson e.outcome).isOk = true) → SameLog Γ entries := by
  intro h
  have hlinked : Prelinked auditCtx none [first, second] := prelinked_of_linked (h auditCtx [first, second] (by decide)).linked
  obtain ⟨-, hlink, -⟩ := hlinked
  cases hlink

end ChainBridge
