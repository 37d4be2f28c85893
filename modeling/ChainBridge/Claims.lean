import ChainBridge.Dedup
import Mathlib.Logic.Function.Basic

/-!
# The claim protocol

What effect-level deduplication is for, without the handlers: a clock, the store, and for each handler the claim it holds. A
claim goes through when no unexpired record is stored under its key; its holder may have a submission accepted, and finishes by
recording the effect or by removing the key; sweeps drop expired records; a restart drops everything.

`Lemmas.Claims` shows that every step of the bridge is a step of this protocol.
-/

namespace ChainBridge

open Interleave

/-- A claim that went through and is not finished. -/
structure Holding where
  key : String
  nowMs : Nat
  accepted : Bool
  deriving DecidableEq

/-- The clock, the store and the claims held, by handler. -/
structure Claims where
  clock : Nat
  store : DedupStore
  holder : Nat → Option Holding

/-- What happens to the claims. -/
inductive ClaimEvent where
  | quiet
  | claimed (t : Nat) (key : String) (nowMs : Nat)
  | accepted (t : Nat) (key : String)
  | recorded (t : Nat) (key : String) (rec : DedupRecord)
  | released (t : Nat) (key : String)
  | swept (nowMs : Nat)
  | restarted
  deriving DecidableEq

/-- The key of a mint effect: its holder may remove the key although a submission was accepted. -/
def IsMintKey (key : String) : Prop := ∃ a, dedupKey .mint a = some key

/-- One step of the protocol. -/
inductive Claims.Step (c : Claims) : ClaimEvent → Claims → Prop where
  | quiet {clock : Nat} : c.clock ≤ clock → Step c .quiet { c with clock }
  | claimed {t : Nat} {key : String} {nowMs : Nat} : c.holder t = none → nowMs ≤ c.clock →
      (∀ rec, c.store.get? key = some rec → rec.expiryMs ≤ nowMs) →
      Step c (.claimed t key nowMs)
        { c with store := c.store.insert key (claimAt nowMs)
                 holder := Function.update c.holder t (some ⟨key, nowMs, false⟩) }
  | accepted {t : Nat} {key : String} {nowMs : Nat} : c.holder t = some ⟨key, nowMs, false⟩ →
      Step c (.accepted t key) { c with holder := Function.update c.holder t (some ⟨key, nowMs, true⟩) }
  | recorded {t : Nat} {key : String} {nowMs : Nat} {signature : String} {slot : Nat} :
      c.holder t = some ⟨key, nowMs, true⟩ →
      Step c (.recorded t key (doneAt nowMs signature slot))
        { c with store := c.store.insert key (doneAt nowMs signature slot)
                 holder := Function.update c.holder t none }
  | released {t : Nat} {key : String} {nowMs : Nat} {accepted : Bool} : c.holder t = some ⟨key, nowMs, accepted⟩ →
      (accepted = true → IsMintKey key) →
      Step c (.released t key) { c with store := c.store.remove key, holder := Function.update c.holder t none }
  | swept {nowMs : Nat} : nowMs ≤ c.clock → Step c (.swept nowMs) { c with store := sweepDedup c.store nowMs }
  | restarted : Step c .restarted { c with store := .empty, holder := fun _ => none }

/-- The record an event writes under a key, with its writer. -/
def ClaimEvent.write (key : String) : ClaimEvent → Option (Nat × DedupRecord)
  | .claimed t key' nowMs => if key' = key then some (t, claimAt nowMs) else none
  | .recorded t key' rec => if key' = key then some (t, rec) else none
  | _ => none

/-- The handler whose claim of a key an event lets through. -/
def ClaimEvent.claimant (key : String) : ClaimEvent → Option Nat
  | .claimed t key' _ => if key' = key then some t else none
  | _ => none

namespace Claims

variable {c c' : Claims} {e : ClaimEvent}

/-- A claim held after the holder of `t` was replaced: the new one, or another handler's. -/
theorem holder_update {holder : Nat → Option Holding} {t u : Nat} {o : Option Holding} {h : Holding}
    (hu : Function.update holder t o u = some h) : (u = t ∧ o = some h) ∨ (u ≠ t ∧ holder u = some h) := by
  by_cases hut : u = t
  · subst hut
    rw [Function.update_self] at hu
    exact Or.inl ⟨rfl, hu⟩
  · rw [Function.update_of_ne hut] at hu
    exact Or.inr ⟨hut, hu⟩

/-- A claim held after the holder of `t` gave its own up is another handler's. -/
theorem holder_update_none {holder : Nat → Option Holding} {t u : Nat} {h : Holding}
    (hu : Function.update holder t none u = some h) : u ≠ t ∧ holder u = some h := by
  rcases holder_update hu with ⟨-, ho⟩ | hu'
  · cases ho
  · exact hu'

/-- A claim held after a submission of the holder of `t` was accepted was held before, on the same key at the same reading. -/
theorem holder_update_accepted {holder : Nat → Option Holding} {t u : Nat} {key : String} {nowMs : Nat} {h : Holding}
    (hh : holder t = some ⟨key, nowMs, false⟩) (hu : Function.update holder t (some ⟨key, nowMs, true⟩) u = some h) :
    ∃ h₀, holder u = some h₀ ∧ h₀.key = h.key ∧ h₀.nowMs = h.nowMs := by
  rcases holder_update hu with ⟨rfl, hnew⟩ | ⟨-, hold⟩
  · cases hnew
    exact ⟨_, hh, rfl, rfl⟩
  · exact ⟨h, hold, rfl, rfl⟩

theorem get?_sweepDedup {store : DedupStore} {key : String} {rec : DedupRecord} {nowMs : Nat}
    (h : store.get? key = some rec) (hlive : nowMs < rec.expiryMs) : (sweepDedup store nowMs).get? key = some rec :=
  KeyMap.get?_retain_of_keep store _ h (decide_eq_true hlive)

/-- A claim held after a step was held before it, or was just made. -/
theorem Step.holder_cases (hs : Step c e c') {t : Nat} {h : Holding} (hh : c'.holder t = some h) :
    (∃ h₀, c.holder t = some h₀ ∧ h₀.key = h.key ∧ h₀.nowMs = h.nowMs) ∨ e = .claimed t h.key h.nowMs := by
  cases hs with
  | quiet _ => exact Or.inl ⟨h, hh, rfl, rfl⟩
  | claimed _ _ _ =>
    rcases holder_update hh with ⟨rfl, ho⟩ | ⟨-, hh'⟩
    · cases ho
      exact Or.inr rfl
    · exact Or.inl ⟨h, hh', rfl, rfl⟩
  | accepted hold => exact Or.inl (holder_update_accepted hold hh)
  | recorded _ => exact Or.inl ⟨h, (holder_update_none hh).2, rfl, rfl⟩
  | released _ _ => exact Or.inl ⟨h, (holder_update_none hh).2, rfl, rfl⟩
  | swept _ => exact Or.inl ⟨h, hh, rfl, rfl⟩
  | restarted => cases hh

/-- The clock never decreases. -/
theorem Step.clock_le (hs : Step c e c') : c.clock ≤ c'.clock := by
  cases hs with
  | quiet hc => exact hc
  | _ => exact Nat.le_refl _

/-- What is recorded is the effect of a claim that had a submission accepted. -/
theorem Step.recorded_eq {t : Nat} {key : String} {rec : DedupRecord} (hs : Step c (.recorded t key rec) c') :
    ∃ nowMs signature slot, rec = doneAt nowMs signature slot ∧ c.holder t = some ⟨key, nowMs, true⟩ := by
  cases hs with
  | @recorded _ _ nowMs signature slot hh => exact ⟨nowMs, signature, slot, rfl, hh⟩

/-- What is released is a claim held. -/
theorem Step.released_eq {t : Nat} {key : String} (hs : Step c (.released t key) c') :
    ∃ nowMs accepted, c.holder t = some ⟨key, nowMs, accepted⟩ := by
  cases hs with
  | @released _ _ nowMs accepted hh _ => exact ⟨nowMs, accepted, hh⟩

/-! ## Exclusion -/

/-- Every claim held is in the store as its holder left it, and no key is held twice. -/
structure Exclusive (c : Claims) : Prop where
  stored : ∀ t h, c.holder t = some h → c.store.get? h.key = some (claimAt h.nowMs)
  unique : ∀ t u h h', c.holder t = some h → c.holder u = some h' → h.key = h'.key → t = u

/-- No claim held has expired. -/
def Timely (c : Claims) : Prop := ∀ t h, c.holder t = some h → c.clock < (claimAt h.nowMs).expiryMs

/-- A key whose record has no unexpired entry is held by nobody. -/
theorem Exclusive.not_held (hx : Exclusive c) (ht : Timely c) {key : String} {nowMs : Nat} (hn : nowMs ≤ c.clock)
    (hexp : ∀ rec, c.store.get? key = some rec → rec.expiryMs ≤ nowMs) {t : Nat} {h : Holding}
    (hh : c.holder t = some h) : h.key ≠ key := by
  intro hk
  subst hk
  have h₁ := hexp _ (hx.stored t h hh)
  have h₂ := ht t h hh
  omega

/-- A holder that gives its claim up and changes the store at its own key only. -/
theorem Exclusive.finished (hx : Exclusive c) {t : Nat} {h₀ : Holding} (hh : c.holder t = some h₀) {store : DedupStore}
    (hstore : ∀ key, key ≠ h₀.key → store.get? key = c.store.get? key) :
    Exclusive { c with store, holder := Function.update c.holder t none } := by
  constructor
  · intro u h hu
    obtain ⟨hut, hu'⟩ := holder_update_none hu
    have hne : h.key ≠ h₀.key := fun hk => hut (hx.unique u t h h₀ hu' hh hk)
    show store.get? h.key = _
    rw [hstore h.key hne]
    exact hx.stored u h hu'
  · intro u v h h' hu hv
    exact hx.unique u v h h' (holder_update_none hu).2 (holder_update_none hv).2

/-- A step keeps exclusion as long as no claim held has expired. -/
theorem Exclusive.step (hx : Exclusive c) (ht : Timely c) (hs : Step c e c') : Exclusive c' := by
  cases hs with
  | quiet _ => exact ⟨hx.stored, hx.unique⟩
  | @claimed t key nowMs hnone hn hexp =>
    have hfree := fun u h (hu : c.holder u = some h) => hx.not_held ht hn hexp hu
    constructor
    · intro u h hu
      rcases holder_update hu with ⟨-, ho⟩ | ⟨-, hu'⟩
      · cases ho
        exact KeyMap.get?_insert_self _ _ _
      · rw [KeyMap.get?_insert_of_ne _ _ (hfree u h hu')]
        exact hx.stored u h hu'
    · intro u v h h' hu hv hk
      rcases holder_update hu with ⟨rfl, ho⟩ | ⟨-, hu'⟩ <;> rcases holder_update hv with ⟨rfl, ho'⟩ | ⟨-, hv'⟩
      · rfl
      · cases ho
        exact (hfree v h' hv' hk.symm).elim
      · cases ho'
        exact (hfree u h hu' hk).elim
      · exact hx.unique u v h h' hu' hv' hk
  | @accepted t key nowMs hh =>
    constructor
    · intro u h hu
      obtain ⟨h₀, hu₀, hk, hn⟩ := holder_update_accepted hh hu
      rw [← hk, ← hn]
      exact hx.stored u h₀ hu₀
    · intro u v h h' hu hv hk
      obtain ⟨h₀, hu₀, hk₀, -⟩ := holder_update_accepted hh hu
      obtain ⟨h₁, hv₁, hk₁, -⟩ := holder_update_accepted hh hv
      exact hx.unique u v h₀ h₁ hu₀ hv₁ (by rw [hk₀, hk₁, hk])
  | recorded hh => exact hx.finished hh fun key hne => KeyMap.get?_insert_of_ne _ _ hne
  | released hh _ => exact hx.finished hh fun key hne => KeyMap.get?_remove_of_ne _ hne
  | @swept nowMs hn =>
    refine ⟨fun u h hu => ?_, hx.unique⟩
    exact get?_sweepDedup (hx.stored u h hu) (Nat.lt_of_le_of_lt hn (ht u h hu))
  | restarted =>
    constructor
    · intro u h hu
      cases hu
    · intro u v h h' hu
      cases hu

/-! ## Replay -/

/-- A recorded effect is replayable: while its record has not expired it is the one stored, and nobody holds the key. -/
def Replayable (c : Claims) (key : String) (rec : DedupRecord) : Prop :=
  c.clock < rec.expiryMs → c.store.get? key = some rec ∧ ∀ t h, c.holder t = some h → h.key ≠ key

/-- A recorded effect stays replayable through every step but a restart. -/
theorem Replayable.step {key : String} {rec : DedupRecord} (hr : Replayable c key rec) (he : e ≠ .restarted)
    (hs : Step c e c') : Replayable c' key rec := by
  intro hlive
  cases hs with
  | quiet hc => exact hr (Nat.lt_of_le_of_lt hc hlive)
  | @claimed t key' nowMs hnone hn hexp =>
    obtain ⟨hget, hfree⟩ := hr hlive
    have hne : key ≠ key' := by
      intro hk
      subst hk
      have h₁ : c.clock < rec.expiryMs := hlive
      have h₂ := hexp rec hget
      omega
    refine ⟨?_, fun u h hu => ?_⟩
    · rw [KeyMap.get?_insert_of_ne _ _ hne]
      exact hget
    · rcases holder_update hu with ⟨-, ho⟩ | ⟨-, hu'⟩
      · cases ho
        exact hne.symm
      · exact hfree u h hu'
  | @accepted t key' nowMs hh =>
    obtain ⟨hget, hfree⟩ := hr hlive
    refine ⟨hget, fun u h hu => ?_⟩
    rcases holder_update hu with ⟨-, ho⟩ | ⟨-, hu'⟩
    · cases ho
      have hne := hfree t _ hh
      exact hne
    · exact hfree u h hu'
  | @recorded t key' nowMs signature slot hh =>
    obtain ⟨hget, hfree⟩ := hr hlive
    refine ⟨?_, fun u h hu => hfree u h (holder_update_none hu).2⟩
    rw [KeyMap.get?_insert_of_ne _ _ (hfree t _ hh).symm]
    exact hget
  | @released t key' nowMs accepted hh _ =>
    obtain ⟨hget, hfree⟩ := hr hlive
    refine ⟨?_, fun u h hu => hfree u h (holder_update_none hu).2⟩
    rw [KeyMap.get?_remove_of_ne _ (hfree t _ hh).symm]
    exact hget
  | swept hn =>
    obtain ⟨hget, hfree⟩ := hr hlive
    exact ⟨get?_sweepDedup hget (Nat.lt_of_le_of_lt hn hlive), hfree⟩
  | restarted => exact (he rfl).elim

/-- An effect is replayable as soon as it is recorded. -/
theorem Exclusive.replayable {t : Nat} {key : String} {rec : DedupRecord} (hx : Exclusive c)
    (hs : Step c (.recorded t key rec) c') : Replayable c' key rec := by
  intro _
  cases hs with
  | @recorded _ _ nowMs signature slot hh =>
    refine ⟨KeyMap.get?_insert_self _ _ _, fun u h hu hk => ?_⟩
    obtain ⟨hut, hu'⟩ := holder_update_none hu
    exact hut (hx.unique u t h _ hu' hh hk)

/-! ## Who wrote a record -/

/-- Every record stored is the last one written under its key. -/
def Attributed (c : Claims) (wrote : String → Option (Nat × DedupRecord)) : Prop :=
  ∀ key rec, c.store.get? key = some rec → ∃ t, wrote key = some (t, rec)

/-- What a store holds after a record was written is that record, or was stored before. -/
theorem Attributed.insert {wrote : String → Option (Nat × DedupRecord)} (ha : Attributed c wrote) {key : String}
    {t : Nat} {rec : DedupRecord} (he : ∀ key', e.write key' = if key = key' then some (t, rec) else none)
    (holder : Nat → Option Holding) :
    Attributed { c with store := c.store.insert key rec, holder } (fun key => (e.write key).or (wrote key)) := by
  intro key' rec' hrec
  by_cases hk : key = key'
  · subst hk
    rw [KeyMap.get?_insert_self, Option.some.injEq] at hrec
    exact ⟨t, by simp only [he, if_true, Option.some_or, hrec]⟩
  · rw [KeyMap.get?_insert_of_ne _ _ (Ne.symm hk)] at hrec
    simp only [he, if_neg hk, Option.none_or]
    exact ha key' rec' hrec

theorem Attributed.step {wrote : String → Option (Nat × DedupRecord)} (ha : Attributed c wrote) (hs : Step c e c') :
    Attributed c' (fun key => (e.write key).or (wrote key)) := by
  cases hs with
  | quiet _ => exact ha
  | claimed _ _ _ => exact ha.insert (fun _ => rfl) _
  | accepted _ => exact ha
  | recorded _ => exact ha.insert (fun _ => rfl) _
  | @released t key nowMs accepted _ _ =>
    intro key' rec hrec
    by_cases hk : key' = key
    · subst hk
      rw [KeyMap.get?_remove_self] at hrec
      cases hrec
    · rw [KeyMap.get?_remove_of_ne _ hk] at hrec
      exact ha key' rec hrec
  | swept _ => exact fun key rec hrec => ha key rec (KeyMap.get?_of_get?_retain _ _ hrec)
  | restarted => exact fun key rec hrec => (by cases hrec)

/-- A claim whose lease runs is in the store as its holder left it, and a claim that no other followed is the last record written
under its key. -/
structure Owned (c : Claims) (wrote : String → Option (Nat × DedupRecord)) (claimant : String → Option Nat) : Prop where
  attributed : Attributed c wrote
  leased : ∀ t h, c.holder t = some h → c.clock < (claimAt h.nowMs).expiryMs →
    c.store.get? h.key = some (claimAt h.nowMs) ∧ wrote h.key = some (t, claimAt h.nowMs)
  last : ∀ t h, c.holder t = some h → claimant h.key = some t → wrote h.key = some (t, claimAt h.nowMs)

/-- The finishes in question: a holder records its effect while its lease runs, and removes its key then or before another claim
of the key went through. -/
structure InLease (c : Claims) (claimant : String → Option Nat) (e : ClaimEvent) : Prop where
  recorded : ∀ t rec h, c.holder t = some h → e = .recorded t h.key rec → c.clock < (claimAt h.nowMs).expiryMs
  released : ∀ t h, c.holder t = some h → e = .released t h.key →
    c.clock < (claimAt h.nowMs).expiryMs ∨ claimant h.key = some t

section Owned

variable {wrote : String → Option (Nat × DedupRecord)} {claimant : String → Option Nat} {t : Nat} {h : Holding}

/-- Such a holder wrote the last record under its key. -/
theorem Owned.wrote_eq (ho : Owned c wrote claimant) (hh : c.holder t = some h)
    (hlease : c.clock < (claimAt h.nowMs).expiryMs ∨ claimant h.key = some t) : wrote h.key = some (t, claimAt h.nowMs) :=
  hlease.elim (fun hlive => (ho.leased t h hh hlive).2) (ho.last t h hh)

/-- The record stored under its key, if any, is its own. -/
theorem Owned.stored_eq (ho : Owned c wrote claimant) (hh : c.holder t = some h)
    (hlease : c.clock < (claimAt h.nowMs).expiryMs ∨ claimant h.key = some t) {rec : DedupRecord}
    (hrec : c.store.get? h.key = some rec) : wrote h.key = some (t, rec) := by
  obtain ⟨t', hwrote⟩ := ho.attributed h.key rec hrec
  have hown := ho.wrote_eq hh hlease
  rw [hown, Option.some.injEq, Prod.mk.injEq] at hwrote
  rw [hown, hwrote.2]

/-- Two such holders of one key are one handler. -/
theorem Owned.holder_unique (ho : Owned c wrote claimant) (hh : c.holder t = some h)
    (hlease : c.clock < (claimAt h.nowMs).expiryMs ∨ claimant h.key = some t) {u : Nat} {h' : Holding}
    (hu : c.holder u = some h') (hlease' : c.clock < (claimAt h'.nowMs).expiryMs ∨ claimant h'.key = some u)
    (hkey : h'.key = h.key) : u = t := by
  have h₁ := ho.wrote_eq hh hlease
  have h₂ := ho.wrote_eq hu hlease'
  rw [hkey, h₁, Option.some.injEq, Prod.mk.injEq] at h₂
  exact h₂.1.symm

/-- A claim goes through: no lease of its key runs, and nobody else is its last claimant any more. -/
theorem Owned.claimed (ho : Owned c wrote claimant) {key : String} {nowMs : Nat} (hnow : nowMs ≤ c.clock)
    (hexp : ∀ rec, c.store.get? key = some rec → rec.expiryMs ≤ nowMs) (ha : Attributed c' fun key' =>
      ((ClaimEvent.claimed t key nowMs).write key').or (wrote key'))
    (hc' : c' = { c with store := c.store.insert key (claimAt nowMs)
                         holder := Function.update c.holder t (some ⟨key, nowMs, false⟩) }) :
    Owned c' (fun key' => ((ClaimEvent.claimed t key nowMs).write key').or (wrote key'))
      (fun key' => ((ClaimEvent.claimed t key nowMs).claimant key').or (claimant key')) := by
  subst hc'
  refine ⟨ha, fun u h hu hlive => ?_, fun u h hu hlast => ?_⟩
  · rcases holder_update hu with ⟨rfl, hnew⟩ | ⟨-, hold⟩
    · cases hnew
      exact ⟨KeyMap.get?_insert_self _ _ _, by simp [ClaimEvent.write]⟩
    · obtain ⟨hstored, hwrote⟩ := ho.leased u h hold hlive
      have hne : h.key ≠ key := by
        intro hk
        have h₁ := hexp _ (hk ▸ hstored)
        have h₂ : c.clock < (claimAt h.nowMs).expiryMs := hlive
        omega
      refine ⟨(KeyMap.get?_insert_of_ne _ _ hne).trans hstored, ?_⟩
      simpa [ClaimEvent.write, Ne.symm hne] using hwrote
  · rcases holder_update hu with ⟨rfl, hnew⟩ | ⟨hut, hold⟩
    · cases hnew
      simp [ClaimEvent.write]
    · by_cases hk : key = h.key
      · simp only [ClaimEvent.claimant, if_pos hk, Option.some_or, Option.some.injEq] at hlast
        exact (hut hlast.symm).elim
      · simp only [ClaimEvent.claimant, if_neg hk, Option.none_or] at hlast
        simpa [ClaimEvent.write, hk] using ho.last u h hold hlast

/-- A step keeps the claims owned, as long as every finish is in its lease. -/
theorem Owned.step (ho : Owned c wrote claimant) (he : InLease c claimant e) (hs : Step c e c') :
    Owned c' (fun key => (e.write key).or (wrote key)) (fun key => (e.claimant key).or (claimant key)) := by
  have ha := ho.attributed.step hs
  cases hs with
  | quiet hclock => exact ⟨ha, fun t h hh hlive => ho.leased t h hh (Nat.lt_of_le_of_lt hclock hlive), ho.last⟩
  | claimed hnone hnow hexp => exact ho.claimed hnow hexp ha rfl
  | @accepted t key nowMs hh =>
    refine ⟨ha, fun u h hu hlive => ?_, fun u h hu hlast => ?_⟩
    · obtain ⟨h₀, hold, hk, hn⟩ := holder_update_accepted hh hu
      have hlive' : c.clock < (claimAt h₀.nowMs).expiryMs := hn ▸ hlive
      rw [← hk, ← hn]
      exact ho.leased u h₀ hold hlive'
    · obtain ⟨h₀, hold, hk, hn⟩ := holder_update_accepted hh hu
      rw [← hk, ← hn]
      exact ho.last u h₀ hold (hk ▸ hlast)
  | @recorded t key nowMs signature slot hh =>
    have hlive := he.recorded t _ _ hh rfl
    have hother : ∀ u h, c.holder u = some h → u ≠ t → c.clock < (claimAt h.nowMs).expiryMs ∨ claimant h.key = some u →
        h.key ≠ key := fun u h hu hut hl hk => hut (ho.holder_unique hh (Or.inl hlive) hu hl hk)
    refine ⟨ha, fun u h hu hlive => ?_, fun u h hu hlast => ?_⟩
    · obtain ⟨hut, hold⟩ := holder_update_none hu
      have hne := hother u h hold hut (Or.inl hlive)
      obtain ⟨hstored, hwrote⟩ := ho.leased u h hold hlive
      refine ⟨(KeyMap.get?_insert_of_ne _ _ hne).trans hstored, ?_⟩
      simpa [ClaimEvent.write, Ne.symm hne] using hwrote
    · obtain ⟨hut, hold⟩ := holder_update_none hu
      have hne := hother u h hold hut (Or.inr hlast)
      simpa [ClaimEvent.write, Ne.symm hne] using ho.last u h hold hlast
  | @released t key nowMs accepted hh hmint =>
    have hlease := he.released t _ hh rfl
    refine ⟨ha, fun u h hu hlive => ?_, fun u h hu hlast => ho.last u h (holder_update_none hu).2 hlast⟩
    obtain ⟨hut, hold⟩ := holder_update_none hu
    have hne : h.key ≠ key := fun hk => hut (ho.holder_unique hh hlease hold (Or.inl hlive) hk)
    obtain ⟨hstored, hwrote⟩ := ho.leased u h hold hlive
    exact ⟨(KeyMap.get?_remove_of_ne _ hne).trans hstored, hwrote⟩
  | swept hnow =>
    refine ⟨ha, fun u h hu hlive => ?_, ho.last⟩
    obtain ⟨hstored, hwrote⟩ := ho.leased u h hu hlive
    exact ⟨get?_sweepDedup hstored (Nat.lt_of_le_of_lt hnow hlive), hwrote⟩
  | restarted => exact ⟨ha, fun u h hu => (by cases hu), fun u h hu => (by cases hu)⟩

end Owned

/-! ## Claims in flight -/

/-- Every claim in flight in the store is the last record written under its key, by a handler that still holds it. -/
def Tended (c : Claims) (wrote : String → Option (Nat × DedupRecord)) : Prop :=
  ∀ key rec, c.store.get? key = some rec → rec.state = .inFlight →
    ∃ t nowMs accepted, wrote key = some (t, rec) ∧ c.holder t = some ⟨key, nowMs, accepted⟩

section Tended

variable {wrote : String → Option (Nat × DedupRecord)}

/-- A holder that gives its claim up leaves no claim of its own in flight, when it changes its own key only and leaves no claim
there. -/
theorem Tended.finished (ht : Tended c wrote) {t : Nat} {h : Holding} (hh : c.holder t = some h) {store : DedupStore}
    (hown : ∀ rec, store.get? h.key = some rec → rec.state ≠ .inFlight)
    (hother : ∀ key, key ≠ h.key → store.get? key = c.store.get? key)
    (hwrite : ∀ key, key ≠ h.key → e.write key = none) :
    Tended { c with store, holder := Function.update c.holder t none } (fun key => (e.write key).or (wrote key)) := by
  intro key rec hrec hin
  by_cases hk : key = h.key
  · subst hk
    exact (hown rec hrec hin).elim
  · have hrec' : c.store.get? key = some rec := (hother key hk).symm.trans hrec
    obtain ⟨u, nowMs, accepted, hwrote, hu⟩ := ht key rec hrec' hin
    have hut : u ≠ t := by
      rintro rfl
      rw [hh, Option.some.injEq] at hu
      exact hk (congrArg Holding.key hu).symm
    refine ⟨u, nowMs, accepted, ?_, (Function.update_of_ne hut ..).trans hu⟩
    simp only [hwrite key hk, Option.none_or, hwrote]

/-- A step leaves no claim in flight that nobody holds, whoever finishes and however late. -/
theorem Tended.step (ht : Tended c wrote) (hs : Step c e c') : Tended c' (fun key => (e.write key).or (wrote key)) := by
  cases hs with
  | quiet _ => exact ht
  | @claimed t key nowMs hnone hnow hexp =>
    intro key' rec hrec hin
    by_cases hk : key = key'
    · subst hk
      rw [KeyMap.get?_insert_self, Option.some.injEq] at hrec
      exact ⟨t, nowMs, false, by simp [ClaimEvent.write, hrec], Function.update_self ..⟩
    · rw [KeyMap.get?_insert_of_ne _ _ (Ne.symm hk)] at hrec
      obtain ⟨u, n, accepted, hwrote, hu⟩ := ht key' rec hrec hin
      have hut : u ≠ t := by
        rintro rfl
        rw [hnone] at hu
        cases hu
      exact ⟨u, n, accepted, by simp [ClaimEvent.write, hk, hwrote], (Function.update_of_ne hut ..).trans hu⟩
  | @accepted t key nowMs hh =>
    intro key' rec hrec hin
    obtain ⟨u, n, accepted, hwrote, hu⟩ := ht key' rec hrec hin
    by_cases hut : u = t
    · subst hut
      rw [hh, Option.some.injEq, Holding.mk.injEq] at hu
      obtain ⟨rfl, rfl, rfl⟩ := hu
      exact ⟨u, nowMs, true, hwrote, Function.update_self ..⟩
    · exact ⟨u, n, accepted, hwrote, (Function.update_of_ne hut ..).trans hu⟩
  | @recorded t key nowMs signature slot hh =>
    refine ht.finished hh (fun rec hrec => ?_) (fun key' hk => KeyMap.get?_insert_of_ne _ _ hk)
      fun key' hk => if_neg (Ne.symm hk)
    rw [KeyMap.get?_insert_self, Option.some.injEq] at hrec
    rw [← hrec]
    nofun
  | @released t key nowMs accepted hh hmint =>
    refine ht.finished hh (fun rec hrec => ?_) (fun key' hk => KeyMap.get?_remove_of_ne _ hk) fun _ _ => rfl
    rw [KeyMap.get?_remove_self] at hrec
    cases hrec
  | swept hnow => exact fun key rec hrec => ht key rec (KeyMap.get?_of_get?_retain _ _ hrec)
  | restarted => exact fun key rec hrec => (by cases hrec)

end Tended

/-! ## Records that outlive a window -/

/-- The claims and the records of a key expire no earlier than a record made at `t₀`. -/
structure Dated (c : Claims) (key : String) (t₀ : Nat) : Prop where
  held : ∀ t h, c.holder t = some h → h.key = key → t₀ + dedupTtlMs ≤ (claimAt h.nowMs).expiryMs
  stored : ∀ rec, c.store.get? key = some rec → t₀ + dedupTtlMs ≤ rec.expiryMs

theorem Dated.step {key : String} {t₀ : Nat} (hd : Dated c key t₀) (hs : Step c e c')
    (he : ∀ t nowMs, e = .claimed t key nowMs → t₀ + dedupTtlMs ≤ (claimAt nowMs).expiryMs) : Dated c' key t₀ := by
  constructor
  · intro t h hh hk
    rcases hs.holder_cases hh with ⟨h₀, hh₀, hk₀, hn⟩ | he'
    · rw [← hn]
      exact hd.held t h₀ hh₀ (hk₀.trans hk)
    · exact he t h.nowMs (hk ▸ he')
  · intro rec hrec
    cases hs with
    | quiet _ => exact hd.stored rec hrec
    | @claimed t key' nowMs _ _ _ =>
      by_cases hk : key = key'
      · subst hk
        rw [KeyMap.get?_insert_self, Option.some.injEq] at hrec
        rw [← hrec]
        exact he t nowMs rfl
      · rw [KeyMap.get?_insert_of_ne _ _ hk] at hrec
        exact hd.stored rec hrec
    | accepted _ => exact hd.stored rec hrec
    | @recorded t key' nowMs signature slot hh =>
      by_cases hk : key = key'
      · subst hk
        rw [KeyMap.get?_insert_self, Option.some.injEq] at hrec
        rw [← hrec, doneAt_expiryMs]
        exact hd.held t ⟨key, nowMs, true⟩ hh rfl
      · rw [KeyMap.get?_insert_of_ne _ _ hk] at hrec
        exact hd.stored rec hrec
    | @released t key' nowMs accepted _ _ =>
      by_cases hk : key = key'
      · subst hk
        rw [KeyMap.get?_remove_self] at hrec
        cases hrec
      · rw [KeyMap.get?_remove_of_ne _ hk] at hrec
        exact hd.stored rec hrec
    | swept _ => exact hd.stored rec (KeyMap.get?_of_get?_retain _ _ hrec)
    | restarted => cases hrec

/-! ## One submission for a key -/

/-- What keeps a submit key to one accepted submission. `count` is the number accepted so far, `past` says that one was accepted
before a restart, and `window` that the records of the key cannot expire yet. -/
structure Once (c : Claims) (key : String) (count : Nat) (past window : Prop) : Prop where
  unique : ∀ t u h h', c.holder t = some h → c.holder u = some h' → h.key = key → h'.key = key → t = u
  held : ∀ t h, c.holder t = some h → h.key = key → window → ∃ rec, c.store.get? key = some rec
  atMost : count ≤ 1
  spent : count ≠ 0 → ∀ t h, c.holder t = some h → h.key = key → h.accepted = true
  kept : count ≠ 0 → past ∨ (window → ∃ rec, c.store.get? key = some rec)

/-- The events that may happen to the key: a claim only inside the window, when no submission was accepted before a restart and
the record stored, if any, is unexpired; a sweep inside the window leaves the record. -/
structure OnceEvent (c : Claims) (e : ClaimEvent) (key : String) (past window : Prop) : Prop where
  claim : ∀ t nowMs, e = .claimed t key nowMs → window ∧ ¬past ∧ ∀ rec, c.store.get? key = some rec → nowMs < rec.expiryMs
  sweep : ∀ nowMs, e = .swept nowMs → window → ∀ rec, c.store.get? key = some rec → nowMs < rec.expiryMs

/-- The number of submissions accepted for a key after an event. -/
def countAfter (count : Nat) (key : String) : ClaimEvent → Nat
  | .accepted _ key' => if key' = key then count + 1 else count
  | _ => count

section Once

variable {key : String} {count : Nat} {past past' window window' : Prop}

/-- A step that adds no claim on the key, changes none, and does not lose its record inside the window. -/
theorem Once.frame (ho : Once c key count past window)
    (hback : ∀ t h, c'.holder t = some h → h.key = key → c.holder t = some h)
    (hstored : window → (∃ rec, c.store.get? key = some rec) → ∃ rec, c'.store.get? key = some rec) (hpast : past → past')
    (hwindow : window' → window) : Once c' key count past' window' where
  unique := fun t u h h' ht hu hk hk' => ho.unique t u h h' (hback t h ht hk) (hback u h' hu hk') hk hk'
  held := fun t h ht hk hw => hstored (hwindow hw) (ho.held t h (hback t h ht hk) hk (hwindow hw))
  atMost := ho.atMost
  spent := fun hc t h ht hk => ho.spent hc t h (hback t h ht hk) hk
  kept := fun hc => (ho.kept hc).imp hpast fun hst hw => hstored (hwindow hw) (hst (hwindow hw))

/-- A claim that goes through: no record answered it, so nothing of the key is going on and nothing was accepted. -/
theorem Once.claimed (ho : Once c key count past window) {nowMs : Nat} (hw : window) (hnp : ¬past)
    (hmissing : ¬∃ rec, c.store.get? key = some rec) (t : Nat) :
    Once { c with store := c.store.insert key (claimAt nowMs)
                  holder := Function.update c.holder t (some ⟨key, nowMs, false⟩) } key count past' window' := by
  have hzero : count = 0 := by
    by_contra hc
    exact (ho.kept hc).elim hnp (fun hst => hmissing (hst hw))
  have honly : ∀ u h, Function.update c.holder t (some ⟨key, nowMs, false⟩) u = some h → h.key = key → u = t := by
    intro u h hu hk
    rcases holder_update hu with ⟨hut, -⟩ | ⟨-, hu'⟩
    · exact hut
    · exact (hmissing (ho.held u h hu' hk hw)).elim
  refine ⟨fun u v h h' hu hv hk hk' => ?_, fun _ _ _ _ _ => ⟨_, KeyMap.get?_insert_self _ _ _⟩, ho.atMost,
    fun hc => (hc hzero).elim, fun hc => (hc hzero).elim⟩
  rw [honly u h hu hk, honly v h' hv hk']

/-- An accepted submission of the holder: it is the first one. -/
theorem Once.accepted (ho : Once c key count past window) {t nowMs : Nat} (hh : c.holder t = some ⟨key, nowMs, false⟩)
    (hwindow : window' → window) :
    Once { c with holder := Function.update c.holder t (some ⟨key, nowMs, true⟩) } key (count + 1) past' window' := by
  have hzero : count = 0 := by
    by_contra hc
    have hspent := ho.spent hc t _ hh rfl
    cases hspent
  have honly : ∀ u h, Function.update c.holder t (some ⟨key, nowMs, true⟩) u = some h → h.key = key → u = t := by
    intro u h hu hk
    rcases holder_update hu with ⟨hut, -⟩ | ⟨-, hu'⟩
    · exact hut
    · exact ho.unique u t h _ hu' hh hk rfl
  refine ⟨fun u v h h' hu hv hk hk' => ?_, fun _ _ _ _ hw => ho.held t _ hh rfl (hwindow hw), by omega,
    fun _ u h hu hk => ?_, fun _ => Or.inr fun hw => ho.held t _ hh rfl (hwindow hw)⟩
  · rw [honly u h hu hk, honly v h' hv hk']
  · rcases holder_update hu with ⟨-, ho'⟩ | ⟨hut, -⟩
    · cases ho'
      rfl
    · exact (hut (honly u h hu hk)).elim

/-- A released claim had no submission accepted, and nobody else holds the key. -/
theorem Once.released (ho : Once c key count past window) (hkey : ¬IsMintKey key) {t nowMs : Nat} {accepted : Bool}
    (hh : c.holder t = some ⟨key, nowMs, accepted⟩) (hmint : accepted = true → IsMintKey key) :
    Once { c with store := c.store.remove key, holder := Function.update c.holder t none } key count past' window' := by
  have hzero : count = 0 := by
    by_contra hc
    exact hkey (hmint (ho.spent hc t _ hh rfl))
  have hfree : ∀ u h, Function.update c.holder t none u = some h → h.key ≠ key := by
    intro u h hu hk
    obtain ⟨hut, hu'⟩ := holder_update_none hu
    exact hut (ho.unique u t h _ hu' hh hk rfl)
  exact ⟨fun u v h h' hu hv hk => (hfree u h hu hk).elim, fun u h hu hk => (hfree u h hu hk).elim, ho.atMost,
    fun hc => (hc hzero).elim, fun hc => (hc hzero).elim⟩

/-- A step keeps a submit key to one accepted submission. -/
theorem Once.step (hkey : ¬IsMintKey key) (ho : Once c key count past window) (hev : OnceEvent c e key past window)
    (hs : Step c e c') (hpast : past → past') (hrestart : e = .restarted → count ≠ 0 → past') (hwindow : window' → window) :
    Once c' key (countAfter count key e) past' window' := by
  -- the claims on the key that are left when another key's holder is replaced
  have hother : ∀ {t : Nat} {h₀ : Holding}, h₀.key ≠ key → ∀ u h, Function.update c.holder t (some h₀) u = some h →
      h.key = key → c.holder u = some h := by
    intro t h₀ hne u h hu hk
    rcases holder_update hu with ⟨-, ho'⟩ | ⟨-, hu'⟩
    · cases ho'
      exact (hne hk).elim
    · exact hu'
  cases hs with
  | quiet _ => exact ho.frame (fun _ _ hh _ => hh) (fun _ hst => hst) hpast hwindow
  | @claimed t key' nowMs hnone hn hexp =>
    by_cases hk : key' = key
    · subst hk
      obtain ⟨hw, hnp, hlive⟩ := hev.claim t nowMs rfl
      refine ho.claimed hw hnp ?_ t
      rintro ⟨rec, hrec⟩
      have h₁ := hlive rec hrec
      have h₂ := hexp rec hrec
      omega
    · refine ho.frame (hother hk) (fun _ hst => ?_) hpast hwindow
      obtain ⟨rec, hrec⟩ := hst
      exact ⟨rec, (KeyMap.get?_insert_of_ne _ _ (Ne.symm hk)).trans hrec⟩
  | @accepted t key' nowMs hh =>
    by_cases hk : key' = key
    · subst hk
      rw [countAfter, if_pos rfl]
      exact ho.accepted hh hwindow
    · rw [countAfter, if_neg hk]
      exact ho.frame (hother hk) (fun _ hst => hst) hpast hwindow
  | @recorded t key' nowMs signature slot hh =>
    refine ho.frame (fun u h hu _ => (holder_update_none hu).2) (fun _ hst => ?_) hpast hwindow
    obtain ⟨rec, hrec⟩ := hst
    by_cases hk : key = key'
    · subst hk
      exact ⟨_, KeyMap.get?_insert_self _ _ _⟩
    · exact ⟨rec, (KeyMap.get?_insert_of_ne _ _ hk).trans hrec⟩
  | @released t key' nowMs accepted hh hmint =>
    by_cases hk : key' = key
    · subst hk
      exact ho.released hkey hh hmint
    · refine ho.frame (fun u h hu _ => (holder_update_none hu).2) (fun _ hst => ?_) hpast hwindow
      obtain ⟨rec, hrec⟩ := hst
      exact ⟨rec, (KeyMap.get?_remove_of_ne _ (Ne.symm hk)).trans hrec⟩
  | @swept nowMs hn =>
    refine ho.frame (fun _ _ hh _ => hh) (fun hw hst => ?_) hpast hwindow
    obtain ⟨rec, hrec⟩ := hst
    exact ⟨rec, get?_sweepDedup hrec (hev.sweep nowMs rfl hw rec hrec)⟩
  | restarted =>
    refine ⟨fun u v h h' hu => ?_, fun u h hu => ?_, ho.atMost, fun _ u h hu => ?_, fun hc => Or.inl (hrestart rfl hc)⟩
    · cases hu
    · cases hu
    · cases hu

end Once

end Claims

end ChainBridge
