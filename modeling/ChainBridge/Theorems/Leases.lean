import ChainBridge.Theorems.Nonces

/-!
# Nonce leases

A nonce account is in the hands of one client at most, whatever the order in which the clients' calls are carried out, and
whichever of them fail. Between its statement and its return an allocation owns the row it marked; a release about to free a
row is the only one for it.
-/

namespace ChainBridge

open Interleave

namespace NonceAux

variable {N : NonceParsers} {db : NonceDb}

/-! ## A client's call as a monitor sees it -/

/-- Where a call of a client is. -/
inductive NoncePhase where
  /-- Before the statement of an allocation. -/
  | allocating (client : Nat)
  /-- Between the statement of an allocation and its return. -/
  | returning (client : Nat) (result : Except String NonceAllocation)
  /-- Before the call of a release. -/
  | calling (client : Nat) (id : Int64)
  /-- Between the call of a release and its statement. -/
  | freeing (client : Nat) (id : Int64)
  | finished

/-- The call a phase makes. -/
def NoncePhase.allow : NoncePhase → NonceCall → Prop
  | .allocating _, .claim => True
  | .returning client result, .allocated client' result' => client' = client ∧ result' = result
  | .calling client id, .releasing client' id' => client' = client ∧ id' = id
  | .freeing _ id, .free id' => id' = id
  | _, _ => False

/-- The phase after the answer. -/
def NoncePhase.next (N : NonceParsers) : NoncePhase → (c : NonceCall) → c.Answer → NoncePhase
  | .allocating client, .claim, answer => .returning client (PostgresNonceStore.allocation N answer)
  | .calling client id, .releasing _ _, _ => .freeing client id
  | _, _, _ => .finished

/-- The phase a request starts in. -/
def NoncePhase.start : NonceRequest → NoncePhase
  | .allocate client _ => .allocating client
  | .release client id => .calling client id

/-- The monitor of the clients' calls. -/
def nonceWatch (N : NonceParsers) : Watch NonceCall NonceCall.Answer NonceRequest NoncePhase where
  allow := NoncePhase.allow
  next := NoncePhase.next N
  start := NoncePhase.start
  cut := fun _ => .finished

/-- Every call follows the monitor. -/
theorem request_wp (N : NonceParsers) (m : NonceRequest) :
    ((nonceStore N).start m).wp (nonceWatch N).toMonitor ((nonceWatch N).start m) (fun _ _ => True) := by
  cases m with
  | allocate client keyName => exact ⟨trivial, fun answer => ⟨⟨rfl, rfl⟩, fun _ => trivial⟩⟩
  | release client id => exact ⟨⟨rfl, rfl⟩, fun _ => ⟨rfl, fun _ => trivial⟩⟩

/-! ## Who owns a row -/

/-- The id that a phase is about to return. -/
def NoncePhase.pending : NoncePhase → Option Int64
  | .returning _ (.ok a) => some a.id
  | _ => none

/-- The lease that a phase is about to end. -/
def NoncePhase.ending : NoncePhase → Option Lease
  | .freeing client id => some ⟨client, id, true⟩
  | _ => none

/-- A leased row has one owner at most: a client that holds it, or an allocation about to return it. A release about to free a
row is the only one, and its client holds the row. -/
structure Owned (db : NonceDb) (phase : Nat → Option NoncePhase) : Prop where
  distinct : db.heldIds.Nodup
  leased : ∀ l ∈ db.held, db.Leased l.id
  pending : ∀ t s id, phase t = some s → s.pending = some id → db.Leased id ∧ id ∉ db.heldIds
  apart : ∀ t t' s s' id, phase t = some s → phase t' = some s' → s.pending = some id → s'.pending = some id → t = t'
  ending : ∀ t s l, phase t = some s → s.ending = some l → l ∈ db.held
  single : ∀ t t' s s' l l', phase t = some s → phase t' = some s' → s.ending = some l → s'.ending = some l' → l.id = l'.id → t = t'

/-- What is left to show of a step that changes the table and the phase of one call. -/
structure Moves (db db' : NonceDb) (phase : Nat → Option NoncePhase) (t : Nat) (s : NoncePhase) : Prop where
  distinct : db'.heldIds.Nodup
  leased : ∀ l ∈ db'.held, db'.Leased l.id
  /-- The other calls own what they owned. -/
  others : ∀ u s', u ≠ t → phase u = some s' →
    (∀ id, s'.pending = some id → db'.Leased id ∧ id ∉ db'.heldIds) ∧ ∀ l, s'.ending = some l → l ∈ db'.held
  /-- The call owns what it is about to return, and no other call does. -/
  pending : ∀ id, s.pending = some id → db'.Leased id ∧ id ∉ db'.heldIds ∧
    ∀ u s', u ≠ t → phase u = some s' → s'.pending ≠ some id
  ending : ∀ l, s.ending = some l → l ∈ db'.held ∧
    ∀ u s' l', u ≠ t → phase u = some s' → s'.ending = some l' → l'.id ≠ l.id

theorem Owned.update {db db' : NonceDb} {phase : Nat → Option NoncePhase} {t : Nat} {s : NoncePhase} (h : Owned db phase)
    (hm : Moves db db' phase t s) : Owned db' (Function.update phase t (some s)) := by
  have hself : ∀ {s'}, Function.update phase t (some s) t = some s' → s' = s := by
    intro s' hs'
    rw [Function.update_self] at hs'
    exact (Option.some.inj hs').symm
  have hother : ∀ {u s'}, u ≠ t → Function.update phase t (some s) u = some s' → phase u = some s' := by
    intro u s' hu hs'
    rwa [Function.update_of_ne hu] at hs'
  refine ⟨hm.distinct, hm.leased, ?_, ?_, ?_, ?_⟩
  · intro u s' id hs' hid
    by_cases hu : u = t
    · subst hu
      rw [hself hs'] at hid
      exact ⟨(hm.pending id hid).1, (hm.pending id hid).2.1⟩
    · exact (hm.others u s' hu (hother hu hs')).1 id hid
  · intro u u' s₁ s₂ id h₁ h₂ hid₁ hid₂
    by_cases hu : u = t <;> by_cases hu' : u' = t
    · rw [hu, hu']
    · subst hu
      rw [hself h₁] at hid₁
      exact ((hm.pending id hid₁).2.2 u' s₂ hu' (hother hu' h₂) hid₂).elim
    · subst hu'
      rw [hself h₂] at hid₂
      exact ((hm.pending id hid₂).2.2 u s₁ hu (hother hu h₁) hid₁).elim
    · exact h.apart u u' s₁ s₂ id (hother hu h₁) (hother hu' h₂) hid₁ hid₂
  · intro u s' l hs' hl
    by_cases hu : u = t
    · subst hu
      rw [hself hs'] at hl
      exact (hm.ending l hl).1
    · exact (hm.others u s' hu (hother hu hs')).2 l hl
  · intro u u' s₁ s₂ l₁ l₂ h₁ h₂ hl₁ hl₂ hid
    by_cases hu : u = t <;> by_cases hu' : u' = t
    · rw [hu, hu']
    · subst hu
      rw [hself h₁] at hl₁
      exact ((hm.ending l₁ hl₁).2 u' s₂ l₂ hu' (hother hu' h₂) hl₂ hid.symm).elim
    · subst hu'
      rw [hself h₂] at hl₂
      exact ((hm.ending l₂ hl₂).2 u s₁ l₁ hu (hother hu h₁) hl₁ hid).elim
    · exact h.single u u' s₁ s₂ l₁ l₂ (hother hu h₁) (hother hu' h₂) hl₁ hl₂ hid

/-- A call that owns nothing after a step that leaves the table. -/
theorem moves_idle {phase : Nat → Option NoncePhase} {t : Nat} {s : NoncePhase} (h : Owned db phase) (hp : s.pending = none)
    (he : s.ending = none) : Moves db db phase t s where
  distinct := h.distinct
  leased := h.leased
  others := fun u s' _ hs' => ⟨fun id => h.pending u s' id hs', fun l => h.ending u s' l hs'⟩
  pending := fun id hid => by
    rw [hp] at hid
    cases hid
  ending := fun l hl => by
    rw [he] at hl
    cases hl

/-! ## One step -/

/-- The statement of an allocation: the row it marks was free, so nobody owned it. -/
theorem moves_claim {phase : Nat → Option NoncePhase} {t : Nat} (h : Owned db phase) (client : Nat)
    (proposed : Except String (Option NonceRow)) :
    Moves db (db.serveClaim proposed).2 phase t
      (.returning client (PostgresNonceStore.allocation N (db.serveClaim proposed).1)) := by
  cases hclaimed : db.claimed proposed with
  | none =>
    have hpending : (NoncePhase.returning client (PostgresNonceStore.allocation N (db.serveClaim proposed).1)).pending = none := by
      simp only [NonceDb.serveClaim, hclaimed]
      cases proposed <;> rfl
    rw [serveClaim_none hclaimed]
    exact moves_idle h hpending rfl
  | some row =>
    have hfree := claimed_free hclaimed
    have hkeeps : ∀ {id}, db.Leased id → (db.mark row.id .leased).Leased id := fun hid =>
      leased_mark_of_ne hid (id_ne_of_free hfree hid)
    rw [serveClaim_some hclaimed]
    refine ⟨h.distinct, fun l hl => hkeeps (h.leased l hl), fun u s' _ hs' => ⟨fun id hid => ?_, fun l => h.ending u s' l hs'⟩,
      fun id hid => ?_, fun l hl => by cases hl⟩
    · obtain ⟨hleased, hheld⟩ := h.pending u s' id hs' hid
      exact ⟨hkeeps hleased, hheld⟩
    · have hrow : id = row.id := by
        cases proposed with
        | error e => cases hid
        | ok unlocked =>
          simp only [Except.map, NoncePhase.pending, PostgresNonceStore.allocation] at hid
          split at hid
          · rename_i a ha
            rw [NoncePhase.returning.injEq] at ha
            rw [← Option.some.inj hid, (decode_ok ha.2).1]
          · cases hid
      subst hrow
      refine ⟨leased_mark_self (mem_freeRows.mp hfree).1, fun hheld => ?_, fun u s' _ hs' hid' => ?_⟩
      · obtain ⟨l, hl, hlid⟩ := List.mem_map.mp hheld
        exact id_ne_of_free hfree (h.leased l hl) hlid
      · exact id_ne_of_free hfree (h.pending u s' row.id hs' hid').1 rfl

/-- An allocation returns: what it owned is held by its client. -/
theorem moves_allocated {phase : Nat → Option NoncePhase} {t : Nat} (h : Owned db phase) {client : Nat}
    {result : Except String NonceAllocation} (hs : phase t = some (.returning client result)) :
    Moves db (db.serve (.allocated client result) ()).2 phase t .finished := by
  cases result with
  | error e => exact moves_idle h rfl rfl
  | ok a =>
    obtain ⟨hleased, hheld⟩ := h.pending t _ a.id hs rfl
    have hids : ({ db with held := db.held ++ [⟨client, a.id, false⟩] } : NonceDb).heldIds = db.heldIds ++ [a.id] :=
      List.map_append
    refine ⟨?_, ?_, ?_, fun id hid => (by cases hid), fun l hl => (by cases hl)⟩
    · show NonceDb.heldIds { db with held := db.held ++ [⟨client, a.id, false⟩] } |>.Nodup
      rw [hids]
      exact List.nodup_append.mpr ⟨h.distinct, List.nodup_singleton _, fun x hx y hy hxy => by
        rw [List.mem_singleton.mp hy] at hxy
        exact hheld (hxy ▸ hx)⟩
    · intro l hl
      rcases List.mem_append.mp hl with hl | hl
      · exact h.leased l hl
      · rw [List.mem_singleton.mp hl]
        exact hleased
    · intro u s' hu hs'
      refine ⟨fun id hid => ?_, fun l hl => List.mem_append_left _ (h.ending u s' l hs' hl)⟩
      obtain ⟨hleased', hheld'⟩ := h.pending u s' id hs' hid
      refine ⟨hleased', ?_⟩
      show id ∉ NonceDb.heldIds { db with held := db.held ++ [⟨client, a.id, false⟩] }
      rw [hids, List.mem_append, List.mem_singleton]
      rintro (hmem | rfl)
      · exact hheld' hmem
      · exact hu (h.apart u t s' _ a.id hs' hs hid rfl)

/-- Changing the mark of leases keeps their ids. -/
theorem heldIds_map {f : Lease → Lease} (hf : ∀ l, (f l).id = l.id) (db : NonceDb) :
    ({ db with held := db.held.map f } : NonceDb).heldIds = db.heldIds := by
  show (db.held.map f).map (·.id) = db.held.map (·.id)
  rw [List.map_map]
  exact List.map_congr_left fun l _ => hf l

/-- A step that changes the mark of some leases, and no lease that another call is about to end. -/
theorem moves_marked {phase : Nat → Option NoncePhase} {t : Nat} {s : NoncePhase} {f : Lease → Lease} (h : Owned db phase)
    (hf : ∀ l, (f l).id = l.id) (hpending : s.pending = none)
    (hothers : ∀ u s' l, u ≠ t → phase u = some s' → s'.ending = some l → f l = l)
    (hending : ∀ l, s.ending = some l → l ∈ db.held.map f ∧
      ∀ u s' l', u ≠ t → phase u = some s' → s'.ending = some l' → l'.id ≠ l.id) :
    Moves db { db with held := db.held.map f } phase t s where
  distinct := by
    rw [heldIds_map hf]
    exact h.distinct
  leased := by
    intro l hl
    obtain ⟨l', hl', rfl⟩ := List.mem_map.mp hl
    rw [hf]
    exact h.leased l' hl'
  others := by
    intro u s' hu hs'
    refine ⟨fun id hid => ?_, fun l hl => ?_⟩
    · rw [heldIds_map hf]
      exact h.pending u s' id hs' hid
    · exact List.mem_map.mpr ⟨l, h.ending u s' l hs' hl, hothers u s' l hu hs' hl⟩
  pending := fun id hid => by
    rw [hpending] at hid
    cases hid
  ending := hending

/-- A client calls `release` for a lease it has: no other release for the row is under way. -/
theorem moves_releasing {phase : Nat → Option NoncePhase} {t : Nat} (h : Owned db phase) {client : Nat} {id : Int64}
    (hown : ⟨client, id, false⟩ ∈ db.held) :
    Moves db (db.serve (.releasing client id) ()).2 phase t (.freeing client id) := by
  have hnone : ∀ u s' l, phase u = some s' → s'.ending = some l → l.id ≠ id := by
    intro u s' l hs' hl hid
    have heq : l = ⟨client, id, false⟩ := List.inj_on_of_nodup_map h.distinct (h.ending u s' l hs' hl) hown hid
    cases s' with
    | freeing client' id' =>
      cases hl
      cases heq
    | _ => cases hl
  refine moves_marked h (fun l => ?_) rfl (fun u s' l _ hs' hl => ?_) fun l hl => ?_
  · split <;> rfl
  · exact if_neg fun hmatch => hnone u s' l hs' hl hmatch.2
  · cases hl
    refine ⟨List.mem_map.mpr ⟨⟨client, id, false⟩, hown, if_pos ⟨rfl, rfl⟩⟩, fun u s' l' _ hs' hl' => hnone u s' l' hs' hl'⟩

/-- The statement of a release: its client held the row, so no allocation was about to return it. -/
theorem moves_free {phase : Nat → Option NoncePhase} {t : Nat} (h : Owned db phase) {client : Nat} {id : Int64}
    (hs : phase t = some (.freeing client id)) (proposed : Except String Unit) :
    Moves db (db.serveFree id proposed).2 phase t .finished := by
  have hheld : id ∈ db.heldIds := List.mem_map.mpr ⟨⟨client, id, true⟩, h.ending t _ _ hs rfl, rfl⟩
  have hother : ∀ u s' l, u ≠ t → phase u = some s' → s'.ending = some l → l.id ≠ id := by
    intro u s' l hu hs' hl hid
    exact hu (h.single u t s' _ l _ hs' hs hl rfl hid)
  unfold NonceDb.serveFree
  split
  · have hsub : List.Sublist (db.held.filter fun l => l.id ≠ id) db.held := List.filter_sublist
    refine ⟨(hsub.map _).nodup h.distinct, fun l hl => ?_, fun u s' hu hs' => ⟨fun id' hid' => ?_, fun l hl => ?_⟩,
      fun id' hid' => (by cases hid'), fun l hl => (by cases hl)⟩
    · obtain ⟨hl, hne⟩ := List.mem_filter.mp hl
      exact leased_mark_of_ne (h.leased l hl) (of_decide_eq_true hne)
    · obtain ⟨hleased, hnot⟩ := h.pending u s' id' hs' hid'
      refine ⟨leased_mark_of_ne hleased fun heq => hnot (heq ▸ hheld), fun hmem => hnot ?_⟩
      exact (hsub.map _).subset hmem
    · exact List.mem_filter.mpr ⟨h.ending u s' l hs' hl, decide_eq_true (hother u s' l hu hs' hl)⟩
  · refine moves_marked h (fun l => ?_) rfl (fun u s' l hu hs' hl => if_neg (hother u s' l hu hs' hl)) fun l hl => by cases hl
    split <;> rfl

/-- Nothing is pending in a call that was cut off. -/
theorem Owned.cut {phase : Nat → Option NoncePhase} (h : Owned db phase) :
    Owned db (View.cutPhases (nonceWatch N) phase true) := by
  have hcut : ∀ {t s}, View.cutPhases (nonceWatch N) phase true t = some s → s = .finished := by
    intro t s hphase
    obtain ⟨_, -, rfl⟩ := Option.map_eq_some_iff.mp hphase
    rfl
  refine ⟨h.distinct, h.leased, ?_, ?_, ?_, ?_⟩
  · intro t s id hphase hid
    rw [hcut hphase] at hid
    cases hid
  · intro t t' s s' id hphase _ hid
    rw [hcut hphase] at hid
    cases hid
  · intro t s l hphase hl
    rw [hcut hphase] at hl
    cases hl
  · intro t t' s s' l l' hphase _ hl
    rw [hcut hphase] at hl
    cases hl

/-- Every step of the clients keeps it, if releases are called as they should. -/
theorem owned_step {v u : View NonceCall.Answer NonceDb NonceRequest NonceMove NoncePhase} {l : NonceLabel}
    (h : Owned v.world v.phase) (hrule : ReleasesOwn v.world v.log l) (hs : View.Step (nonceStore N) (nonceWatch N) v l u) :
    Owned u.world u.phase := by
  cases hs with
  | deliver t m hn =>
    refine h.update (moves_idle h ?_ ?_) <;> cases m <;> rfl
  | @env w e hw =>
    cases hw
    cases e with
    | connection lost => exact ⟨h.distinct, h.leased, h.pending, h.apart, h.ending, h.single⟩
    | restart => exact h.cut
  | @call t s c r hphase hallow =>
    cases s with
    | allocating client =>
      cases c with
      | claim => exact h.update (moves_claim h client r)
      | _ => exact hallow.elim
    | returning client result =>
      cases c with
      | allocated client' result' =>
        obtain ⟨rfl, rfl⟩ := hallow
        exact h.update (moves_allocated h hphase)
      | _ => exact hallow.elim
    | calling client id =>
      cases c with
      | releasing client' id' =>
        obtain ⟨rfl, rfl⟩ := hallow
        exact h.update (moves_releasing h hrule)
      | _ => exact hallow.elim
    | freeing client id =>
      cases c with
      | free id' =>
        cases hallow
        exact h.update (moves_free h hphase r)
      | _ => exact hallow.elim
    | finished => exact hallow.elim

/-- In every state reached, the calls own what they are about to return or to end. -/
theorem exists_owned {rows : List NonceRow} {ids : (rows.map (·.id)).Nodup} {p : NonceClients}
    (h : Pool.Reach (nonceStore N) ReleasesOwn (Pool.init (.seeded rows ids)) p) :
    ∃ phase, Owned p.world phase ∧ ∀ t, Pool.Tracked (nonceWatch N) (p.threads t) (phase t) := by
  have hstart : Owned (.seeded rows ids) (fun _ => none) := by
    refine ⟨List.nodup_nil, fun l hl => (by cases hl), ?_, ?_, ?_, ?_⟩
    · intro t s id hs
      cases hs
    · intro t t' s s' id hs
      cases hs
    · intro t s l hs
      cases hs
    · intro t t' s s' l l' hs
      cases hs
  exact h.invariant (request_wp N) (fun v => Owned v.world v.phase) hstart fun v l u hv hrule hs => owned_step hv hrule hs

/-- An allocation that is about to return an id is in the phase that owns it. -/
theorem pending_of_tracked {th : Option (NonceRequest × NonceProg Unit)} {o : Option NoncePhase} {m : NonceRequest} {client : Nat}
    {a : NonceAllocation} {k : Unit → NonceProg Unit} (h : Pool.Tracked (nonceWatch N) th o)
    (hth : th = some (m, .call (.allocated client (.ok a)) k)) : ∃ s, o = some s ∧ s.pending = some a.id := by
  rw [hth] at h
  obtain ⟨s, rfl, hallow, -⟩ := Pool.tracked_some h
  refine ⟨s, rfl, ?_⟩
  cases s with
  | returning client' result =>
    obtain ⟨-, rfl⟩ := hallow
    rfl
  | _ => exact hallow.elim

end NonceAux

open NonceAux

/-- In every state that any number of clients reach from any pool, allocating and releasing what is theirs: each id that is
held is leased in the pool, is held once, and so by one client; and no allocation returns an id that is held. -/
theorem nonces_exclusive (N : NonceParsers) (rows : List NonceRow) (ids : (rows.map (·.id)).Nodup) (p : NonceClients)
    (h : Pool.Reach (nonceStore N) ReleasesOwn (Pool.init (.seeded rows ids)) p) :
    (∀ l ∈ p.world.held, p.world.Leased l.id) ∧ p.world.heldIds.Nodup ∧
    (∀ l ∈ p.world.held, ∀ l' ∈ p.world.held, l.id = l'.id → l.client = l'.client) ∧
    ∀ t client a q, Pool.Step (nonceStore N) p (.call t ⟨.allocated client (.ok a), ()⟩) q → a.id ∉ p.world.heldIds := by
  obtain ⟨phase, howned, htracked⟩ := exists_owned h
  refine ⟨howned.leased, howned.distinct, fun l hl l' hl' hid => ?_, fun t client a q hstep => ?_⟩
  · rw [List.inj_on_of_nodup_map howned.distinct hl hl' hid]
  · obtain ⟨m, k, -, hthread, -⟩ := hstep.call_inv
    obtain ⟨s, hs, hpending⟩ := pending_of_tracked (htracked t) hthread
    exact (howned.pending t s a.id hs hpending).2

namespace NonceAux

/-- Two clients that allocate side by side, the second of which has its statement carried out first; the first releases. -/
def twoClients : List (Pool.Action NonceCall NonceCall.Answer NonceRequest NonceMove) :=
  let go := fun t : Nat => Pool.Action.call (M := NonceRequest) (E := NonceMove) t fun c => some (carriedOut c)
  [.deliver 0 (.allocate 7 "gridtokenx-bridge"), .deliver 1 (.allocate 8 "gridtokenx-bridge"), go 1, go 0, go 0, go 1,
    .deliver 2 (.release 7 2), go 2, go 2]

/-- The rule of the releases as a test. -/
def releasesOwn (db : NonceDb) (_ : List NonceLabel) : NonceLabel → Bool
  | .call _ ⟨.releasing client id, _⟩ => decide (⟨client, id, false⟩ ∈ db.held)
  | _ => true

theorem releasesOwn_of_test (db : NonceDb) (log : List NonceLabel) (l : NonceLabel) (h : releasesOwn db log l = true) :
    ReleasesOwn db log l := by
  unfold releasesOwn at h
  unfold ReleasesOwn
  split
  · simpa using h
  · trivial

end NonceAux

/-- Two clients and two rows: the first client has released its row, and the second holds the other. -/
theorem nonces_exclusive_run : ∃ p : NonceClients,
    Pool.Reach (nonceStore zeroParsers) ReleasesOwn (Pool.init (.seeded [freeRow 1 zeros, freeRow 2 zeros] (by decide))) p ∧
    p.world.held = [⟨8, 1, false⟩] ∧ p.world.Leased 1 := by
  have hrun : ((Pool.init (.seeded [freeRow 1 zeros, freeRow 2 zeros] (by decide)) : NonceClients).exec (nonceStore zeroParsers)
      releasesOwn twoClients).any (fun p => decide (p.world.held = [⟨8, 1, false⟩])) = true := by decide +kernel
  obtain ⟨p, hreach, htest⟩ := Pool.exists_reach_of_exec releasesOwn_of_test hrun
  have hheld : p.world.held = [⟨8, 1, false⟩] := of_decide_eq_true htest
  refine ⟨p, hreach, hheld, (nonces_exclusive _ _ _ p hreach).1 ⟨8, 1, false⟩ ?_⟩
  rw [hheld]
  exact List.mem_cons_self

end ChainBridge
