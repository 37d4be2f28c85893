import ChainBridge.Lib.Pool
import Mathlib.Data.List.Induction
import Mathlib.Logic.Relation
import Mathlib.Order.WellFounded

/-!
# Programs that share data under locks

The threads of a run share data, each piece behind a lock that is held by one thread exclusively or by several that only read.
A call acquires or releases a lock, reads or writes what it guards, or goes outside; a thread waits where its lock is not to be
had, and it may be dropped at any call, which releases what it holds.

A program is disciplined (`Disciplined`) when it accesses only what it holds, takes locks in ascending order, and accesses
nothing after the first release of a section. For disciplined programs, whatever the interleaving:

- every run is one of sections carried out one after the other, in the order of their first releases (`Reach.scheduled`), and
  of whole programs if each takes its locks once (`Reach.serial`);
- some thread can go on unless every thread is done (`Reach.progress`).
-/

namespace Interleave

/-- How a lock is held. -/
inductive LockMode where
  | shared
  | exclusive
  deriving DecidableEq

/-- A call of a program that shares data: `D l` is behind the lock `l`. -/
inductive LockCall (L : Type) (D : L → Type) (ι : Type) where
  | acquire (l : L) (mode : LockMode)
  | release (l : L)
  /-- Read what the lock guards. -/
  | get (l : L)
  /-- Write what the lock guards. -/
  | set (l : L) (d : D l)
  /-- A call that has nothing to do with the data. -/
  | outside (i : ι)

namespace LockCall

variable {L : Type} {D : L → Type} {ι : Type}

/-- The answers. -/
@[reducible] def Answer (ρ : ι → Type) : LockCall L D ι → Type
  | .acquire _ _ => Unit
  | .release _ => Unit
  | .get l => D l
  | .set _ _ => Unit
  | .outside i => ρ i

/-- The answer to a call: what is read is the data's, the rest is proposed. -/
def answer {ρ : ι → Type} (data : (l : L) → D l) : (c : LockCall L D ι) → c.Answer ρ → c.Answer ρ
  | .get l, _ => data l
  | .acquire _ _, a => a
  | .release _, a => a
  | .set _ _, a => a
  | .outside _, a => a

/-- The data after a call. -/
def update [DecidableEq L] : LockCall L D ι → ((l : L) → D l) → (l : L) → D l
  | .set l d, data => Function.update data l d
  | _, data => data

def isRelease : LockCall L D ι → Bool
  | .release _ => true
  | _ => false

/-- Whether a call reads or writes data. -/
def isAccess : LockCall L D ι → Bool
  | .get _ => true
  | .set _ _ => true
  | _ => false

end LockCall

/-! ## The machine -/

section Machine

variable {L : Type} {D : L → Type} {ι : Type} {ρ : ι → Type} {M : Type}

/-- A program that shares data. -/
abbrev LockProg (D : L → Type) (ρ : ι → Type) (α : Type) : Type := Prog (LockCall L D ι) (LockCall.Answer ρ) α

/-- A call with its answer. -/
abbrev LockEvent (D : L → Type) (ρ : ι → Type) : Type := Event (LockCall.Answer (L := L) (D := D) ρ)

/-- What happens in a step; the move of the environment drops a thread. -/
abbrev LockLabel (D : L → Type) (ρ : ι → Type) (M : Type) : Type := Label (LockCall.Answer (L := L) (D := D) ρ) M Nat

/-- The data, the threads, which thread holds which lock, and the history. -/
structure Locked (D : L → Type) (ρ : ι → Type) (M : Type) where
  data : (l : L) → D l
  threads : Nat → Option (M × LockProg D ρ Unit)
  held : List (Nat × L × LockMode)
  log : List (LockLabel D ρ M)

/-- A lock can be had: in shared mode if nobody holds it exclusively, exclusively if nobody holds it. -/
def Available (held : List (Nat × L × LockMode)) (l : L) (mode : LockMode) : Prop :=
  ∀ h ∈ held, h.2.1 = l → mode = .shared ∧ h.2.2 = .shared

/-- A call that does not wait. -/
def LockCall.Granted (held : List (Nat × L × LockMode)) : LockCall L D ι → Prop
  | .acquire l mode => Available held l mode
  | _ => True

/-- The locks held after a call of a thread. -/
def LockCall.hold [DecidableEq L] (t : Nat) : LockCall L D ι → List (Nat × L × LockMode) → List (Nat × L × LockMode)
  | .acquire l mode, held => (t, l, mode) :: held
  | .release l, held => held.filter fun h => !(h.1 == t && h.2.1 == l)
  | _, held => held

namespace Locked

variable [DecidableEq L]

/-- No thread, no lock held, no history. -/
def init (data : (l : L) → D l) : Locked D ρ M := { data, threads := fun _ => none, held := [], log := [] }

/-- One step. -/
inductive Step (start : M → LockProg D ρ Unit) : Locked D ρ M → LockLabel D ρ M → Locked D ρ M → Prop where
  | deliver {x : Locked D ρ M} (t : Nat) (m : M) : x.threads t = none →
      Step start x (.deliver t m)
        { x with threads := Function.update x.threads t (some (m, start m)), log := x.log ++ [.deliver t m] }
  | call {x : Locked D ρ M} {t : Nat} {m : M} {c : LockCall L D ι} {k : c.Answer ρ → LockProg D ρ Unit} (r : c.Answer ρ) :
      x.threads t = some (m, .call c k) → c.Granted x.held →
      Step start x (.call t ⟨c, c.answer x.data r⟩)
        { data := c.update x.data
          threads := Function.update x.threads t (some (m, k (c.answer x.data r)))
          held := c.hold t x.held
          log := x.log ++ [.call t ⟨c, c.answer x.data r⟩] }
  | drop {x : Locked D ρ M} (t : Nat) {m : M} {q : LockProg D ρ Unit} : x.threads t = some (m, q) →
      Step start x (.env t)
        { x with
          threads := Function.update x.threads t (some (m, .ret ()))
          held := x.held.filter fun h => !(h.1 == t)
          log := x.log ++ [.env t] }

/-- The states reached. -/
inductive Reach (start : M → LockProg D ρ Unit) (x₀ : Locked D ρ M) : Locked D ρ M → Prop where
  | refl : Reach start x₀ x₀
  | step {x y : Locked D ρ M} {l : LockLabel D ρ M} : Reach start x₀ x → Step start x l y → Reach start x₀ y

end Locked

/-! ## Replaying calls on the data -/

theorem LockCall.answer_of_not_access {c : LockCall L D ι} (h : c.isAccess = false) (data : (l : L) → D l) (a : c.Answer ρ) :
    c.answer data a = a := by
  cases c <;> first | rfl | cases h

variable [DecidableEq L]

/-- The data after calls carried out in a row. -/
def dataAfter (data : (l : L) → D l) (t : List (LockEvent D ρ)) : (l : L) → D l := t.foldl (fun data e => e.1.update data) data

/-- Every reading among the calls is what is there when they are carried out in a row. -/
def Fits : ((l : L) → D l) → List (LockEvent D ρ) → Prop
  | _, [] => True
  | data, e :: t => e.2 = e.1.answer data e.2 ∧ Fits (e.1.update data) t

/-- Calls that neither read nor write. -/
def NoAccess (t : List (LockEvent D ρ)) : Prop := ∀ e ∈ t, e.1.isAccess = false

theorem dataAfter_append (data : (l : L) → D l) (t u : List (LockEvent D ρ)) :
    dataAfter data (t ++ u) = dataAfter (dataAfter data t) u :=
  List.foldl_append ..

theorem fits_append {data : (l : L) → D l} {t u : List (LockEvent D ρ)} :
    Fits data (t ++ u) ↔ Fits data t ∧ Fits (dataAfter data t) u := by
  induction t generalizing data with
  | nil => exact (and_iff_right trivial).symm
  | cons e t ih =>
    simp only [List.cons_append, Fits, ih, and_assoc]
    rfl

theorem LockCall.update_of_not_access {c : LockCall L D ι} (h : c.isAccess = false) (data : (l : L) → D l) :
    c.update data = data := by
  cases c <;> first | rfl | cases h

theorem dataAfter_of_noAccess {t : List (LockEvent D ρ)} (h : NoAccess t) (data : (l : L) → D l) : dataAfter data t = data := by
  induction t with
  | nil => rfl
  | cons e t ih =>
    obtain ⟨he, ht⟩ := List.forall_mem_cons.mp h
    show dataAfter (e.1.update data) t = data
    rw [LockCall.update_of_not_access he]
    exact ih ht

theorem fits_of_noAccess {t : List (LockEvent D ρ)} (h : NoAccess t) (data : (l : L) → D l) : Fits data t := by
  induction t with
  | nil => trivial
  | cons e t ih =>
    obtain ⟨he, ht⟩ := List.forall_mem_cons.mp h
    refine ⟨(LockCall.answer_of_not_access he data e.2).symm, ?_⟩
    rw [LockCall.update_of_not_access he]
    exact ih ht

theorem LockCall.update_apply_of_not_set {c : LockCall L D ι} {l : L} (h : ∀ d, c ≠ .set l d) (data : (l : L) → D l) :
    c.update data l = data l := by
  cases c with
  | set l' d =>
    refine Function.update_of_ne ?_ d data
    rintro rfl
    exact h d rfl
  | _ => rfl

/-- What calls do not write stays. -/
theorem dataAfter_apply_of_not_set {t : List (LockEvent D ρ)} {l : L} (h : ∀ e ∈ t, ∀ d, e.1 ≠ .set l d) (data : (l : L) → D l) :
    dataAfter data t l = data l := by
  induction t generalizing data with
  | nil => rfl
  | cons e t ih =>
    obtain ⟨he, ht⟩ := List.forall_mem_cons.mp h
    exact (ih ht _).trans (LockCall.update_apply_of_not_set he data)

/-- Data that agree at a lock agree there after the same call. -/
theorem LockCall.update_congr {data data' : (l : L) → D l} {l : L} (c : LockCall L D ι) (h : data l = data' l) :
    c.update data l = c.update data' l := by
  cases c with
  | set l' d =>
    by_cases hl : l = l'
    · subst hl
      exact (Function.update_self ..).trans (Function.update_self ..).symm
    · exact (Function.update_of_ne hl ..).trans (h.trans (Function.update_of_ne hl ..).symm)
  | _ => exact h

theorem dataAfter_congr {data data' : (l : L) → D l} {l : L} (h : data l = data' l) (t : List (LockEvent D ρ)) :
    dataAfter data t l = dataAfter data' t l := by
  induction t generalizing data data' with
  | nil => exact h
  | cons e t ih => exact ih (e.1.update_congr h)

/-- Calls fit data that agree with data they fit wherever they read. -/
theorem fits_congr {data data' : (l : L) → D l} {t : List (LockEvent D ρ)}
    (h : ∀ e ∈ t, ∀ l, e.1 = .get l → data l = data' l) (hfits : Fits data t) : Fits data' t := by
  induction t generalizing data data' with
  | nil => trivial
  | cons e t ih =>
    obtain ⟨he, ht⟩ := List.forall_mem_cons.mp h
    refine ⟨?_, ih (fun e' he' l hl => e.1.update_congr (ht e' he' l hl)) hfits.2⟩
    have hanswer := hfits.1
    obtain ⟨c, a⟩ := e
    cases c with
    | get l => exact hanswer.trans (he l rfl)
    | _ => rfl

/-! ## Discipline -/

/-- What a program holds, and whether it has released a lock since it last took one. -/
structure Grip (L : Type) where
  held : List (L × LockMode)
  released : Bool

/-- What a program holds after a call. -/
def LockCall.grip : LockCall L D ι → Grip L → Grip L
  | .acquire l mode, g => ⟨(l, mode) :: g.held, false⟩
  | .release l, g => ⟨g.held.filter fun h => !(h.1 == l), true⟩
  | _, g => g

/-- A disciplined call: a program takes locks in ascending order, and after it released one none until it holds none, or,
unless it may take locks `again`, none at all; it releases what it holds; and it reads and writes only what it holds, and not
while it is releasing. -/
def LockCall.Keeps [LT L] (again : Bool) (g : Grip L) : LockCall L D ι → Prop
  | .acquire l _ => (g.released = true → again = true ∧ g.held = []) ∧ ∀ h ∈ g.held, h.1 < l
  | .release l => ∃ mode, (l, mode) ∈ g.held
  | .get l => g.released = false ∧ ∃ mode, (l, mode) ∈ g.held
  | .set l _ => g.released = false ∧ (l, .exclusive) ∈ g.held
  | .outside _ => True

/-- The discipline as a monitor. -/
def discipline (D : L → Type) (ρ : ι → Type) [LT L] (again : Bool) :
    Monitor (LockCall L D ι) (LockCall.Answer ρ) (Grip L) where
  allow g c := c.Keeps again g
  next g c _ := c.grip g

/-- A program that keeps the discipline and ends with every lock released. -/
def Disciplined [LT L] (again : Bool) {α : Type} (p : LockProg D ρ α) : Prop :=
  p.wp (discipline D ρ again) ⟨[], false⟩ (fun g _ => g.held = [])

/-! ## The order of the sections -/

/-- The history sorted: for each thread the calls of the section it is in and what it holds, and the sections that were
finished, in the order in which they released their first lock. -/
structure Schedule (D : L → Type) (ρ : ι → Type) where
  pending : Nat → List (LockEvent D ρ)
  grip : Nat → Grip L
  sections : List (Nat × List (LockEvent D ρ))

namespace Schedule

def empty : Schedule D ρ := ⟨fun _ => [], fun _ => ⟨[], false⟩, []⟩

/-- The calls of a thread become a section. -/
def commit (z : Schedule D ρ) (t : Nat) (e : List (LockEvent D ρ)) : Schedule D ρ :=
  { z with pending := Function.update z.pending t [], sections := z.sections ++ [(t, z.pending t ++ e)] }

/-- A call is pending. -/
def defer (z : Schedule D ρ) (t : Nat) (e : LockEvent D ρ) : Schedule D ρ :=
  { z with pending := Function.update z.pending t (z.pending t ++ [e]) }

/-- What a thread holds changes. -/
def regrip (z : Schedule D ρ) (t : Nat) (g : Grip L) : Schedule D ρ := { z with grip := Function.update z.grip t g }

/-- One more label: the first release of a section finishes it, and so does dropping a thread that is in one. -/
def next (z : Schedule D ρ) : LockLabel D ρ M → Schedule D ρ
  | .deliver _ _ => z
  | .call t e =>
    if e.1.isRelease && !(z.grip t).released then (z.commit t [e]).regrip t (e.1.grip (z.grip t))
    else (z.defer t e).regrip t (e.1.grip (z.grip t))
  | .env t => if (z.grip t).released then z.regrip t ⟨[], true⟩ else (z.commit t []).regrip t ⟨[], true⟩

/-- The calls of the sections, in a row. -/
def serial (z : Schedule D ρ) : List (LockEvent D ρ) := z.sections.flatMap (·.2)

end Schedule

/-- A history sorted. -/
def schedule (log : List (LockLabel D ρ M)) : Schedule D ρ := log.foldl Schedule.next .empty

namespace Schedule

/-- The data after the sections. -/
def now (z : Schedule D ρ) (data₀ : (l : L) → D l) : (l : L) → D l := dataAfter data₀ z.serial

omit [DecidableEq L] in
theorem serial_commit (z : Schedule D ρ) (t : Nat) (es : List (LockEvent D ρ)) :
    (z.commit t es).serial = z.serial ++ (z.pending t ++ es) := by
  simp [serial, commit]

/-- What calls that are quiet add to a section leaves the data as the pending calls did. -/
theorem now_commit (z : Schedule D ρ) (t : Nat) {es : List (LockEvent D ρ)} (hes : NoAccess es) (data₀ : (l : L) → D l) :
    (z.commit t es).now data₀ = dataAfter (z.now data₀) (z.pending t) := by
  rw [now, serial_commit, dataAfter_append, dataAfter_append, dataAfter_of_noAccess hes]
  rfl

end Schedule

/-- How the data, the locks and the sorted history of a run hang together: what is not held exclusively is as the sections left
it, and what is held exclusively is as its holder's pending calls left it from there. -/
structure Scheduled (data₀ data : (l : L) → D l) (held : List (Nat × L × LockMode)) (z : Schedule D ρ) : Prop where
  grips : ∀ t l mode, (l, mode) ∈ (z.grip t).held ↔ (t, l, mode) ∈ held
  alone : ∀ t u l mode, (t, l, .exclusive) ∈ held → (u, l, mode) ∈ held → u = t ∧ mode = .exclusive
  fits : Fits data₀ z.serial
  pendings : ∀ t, Fits (z.now data₀) (z.pending t)
  reads : ∀ t, ∀ e ∈ z.pending t, ∀ l, e.1 = .get l → ∃ mode, (t, l, mode) ∈ held
  writes : ∀ t, ∀ e ∈ z.pending t, ∀ l d, e.1 = .set l d → (t, l, .exclusive) ∈ held
  quiet : ∀ t, (z.grip t).released = true → NoAccess (z.pending t)
  own : ∀ t l, (t, l, .exclusive) ∈ held → data l = dataAfter (z.now data₀) (z.pending t) l
  rest : ∀ l, (∀ t, (t, l, .exclusive) ∉ held) → data l = z.now data₀ l

namespace Scheduled

variable {data₀ data : (l : L) → D l} {held held' : List (Nat × L × LockMode)} {z : Schedule D ρ} {t : Nat}

/-- What a thread does not hold exclusively, its pending calls left as it was. -/
theorem dataAfter_pending (h : Scheduled data₀ data held z) {l : L} (hl : (t, l, .exclusive) ∉ held) (data' : (l : L) → D l) :
    dataAfter data' (z.pending t) l = data' l :=
  dataAfter_apply_of_not_set (fun e he d hd => hl (h.writes t e he l d hd)) data'

/-- The pending calls of a thread become a section. -/
theorem commit (h : Scheduled data₀ data held z) (t : Nat) (es : List (LockEvent D ρ)) (hes : NoAccess es) :
    Scheduled data₀ data held (z.commit t es) := by
  have hnow := z.now_commit t hes data₀
  have hother : ∀ u, u ≠ t → (z.commit t es).pending u = z.pending u := fun u hu => Function.update_of_ne hu ..
  have hself : (z.commit t es).pending t = [] := Function.update_self ..
  have hsub : ∀ u, ∀ e ∈ (z.commit t es).pending u, e ∈ z.pending u := by
    intro u e he
    by_cases hu : u = t
    · rw [hu, hself] at he
      cases he
    · rwa [hother u hu] at he
  have hkeep : ∀ u l mode, u ≠ t → (u, l, mode) ∈ held → (z.commit t es).now data₀ l = z.now data₀ l := by
    intro u l mode hu hl
    rw [hnow]
    refine h.dataAfter_pending (fun hex => hu ?_) _
    exact (h.alone t u l mode hex hl).1
  refine ⟨h.grips, h.alone, ?_, fun u => ?_, fun u e he => h.reads u e (hsub u e he), fun u e he => h.writes u e (hsub u e he),
    fun u hu e he => h.quiet u hu e (hsub u e he), fun u l hl => ?_, fun l hl => ?_⟩
  · rw [Schedule.serial_commit]
    exact fits_append.mpr ⟨h.fits, fits_append.mpr ⟨h.pendings t, fits_of_noAccess hes _⟩⟩
  · by_cases hu : u = t
    · rw [hu, hself]
      trivial
    · rw [hother u hu]
      refine fits_congr (fun e he l hget => ?_) (h.pendings u)
      obtain ⟨mode, hmode⟩ := h.reads u e he l hget
      exact (hkeep u l mode hu hmode).symm
  · by_cases hu : u = t
    · subst hu
      rw [hself, hnow]
      exact h.own u l hl
    · rw [hother u hu, h.own u l hl]
      exact dataAfter_congr (hkeep u l _ hu hl).symm _
  · rw [hnow, h.dataAfter_pending (hl t)]
    exact h.rest l hl

/-- A thread with quiet pending calls gives locks up. -/
theorem lose (h : Scheduled data₀ data held z) {g : Grip L} (hquiet : NoAccess (z.pending t))
    (hsub : ∀ x ∈ held', x ∈ held) (hothers : ∀ u l mode, u ≠ t → (u, l, mode) ∈ held → (u, l, mode) ∈ held')
    (hgrip : ∀ l mode, (l, mode) ∈ g.held ↔ (t, l, mode) ∈ held') : Scheduled data₀ data held' (z.regrip t g) := by
  have hgrips : ∀ u l mode, (l, mode) ∈ ((z.regrip t g).grip u).held ↔ (u, l, mode) ∈ held' := by
    intro u l mode
    by_cases hu : u = t
    · subst hu
      rw [show (z.regrip u g).grip u = g from Function.update_self ..]
      exact hgrip l mode
    · rw [show (z.regrip t g).grip u = z.grip u from Function.update_of_ne hu .., h.grips]
      exact ⟨hothers u l mode hu, hsub _⟩
  have haccess : ∀ e ∈ z.pending t, ∀ l, (e.1 = .get l ∨ ∃ d, e.1 = .set l d) → False := by
    intro e he l hl
    have hnone := hquiet e he
    rcases hl with hl | ⟨d, hl⟩ <;> rw [hl] at hnone <;> cases hnone
  refine ⟨hgrips, fun u v l mode hu hv => h.alone u v l mode (hsub _ hu) (hsub _ hv), h.fits, h.pendings,
    fun u e he l hl => ?_, fun u e he l d hl => ?_, fun u hu => ?_, fun u l hl => h.own u l (hsub _ hl), fun l hl => ?_⟩
  · by_cases hut : u = t
    · subst hut
      exact (haccess e he l (Or.inl hl)).elim
    · obtain ⟨mode, hmode⟩ := h.reads u e he l hl
      exact ⟨mode, hothers u l mode hut hmode⟩
  · by_cases hut : u = t
    · subst hut
      exact (haccess e he l (Or.inr ⟨d, hl⟩)).elim
    · exact hothers u l _ hut (h.writes u e he l d hl)
  · by_cases hut : u = t
    · subst hut
      exact hquiet
    · exact h.quiet u (by rwa [show (z.regrip t g).grip u = z.grip u from Function.update_of_ne hut ..] at hu)
  · by_cases hex : (t, l, .exclusive) ∈ held
    · rw [h.own t l hex]
      exact congrFun (dataAfter_of_noAccess hquiet _) l
    · refine h.rest l fun u hu => ?_
      by_cases hut : u = t
      · subst hut
        exact hex hu
      · exact hl u (hothers u l _ hut hu)

/-- A thread takes a lock that is available. -/
theorem gain (h : Scheduled data₀ data held z) {l : L} {mode : LockMode} (hfree : Available held l mode) :
    Scheduled data₀ data ((t, l, mode) :: held) (z.regrip t ⟨(l, mode) :: (z.grip t).held, false⟩) := by
  have hnone : mode = .exclusive → ∀ u mode', (u, l, mode') ∉ held := by
    intro hmode u mode' hu
    have hshared := (hfree _ hu rfl).1
    rw [hmode] at hshared
    cases hshared
  have hshared : ∀ u, (u, l, .exclusive) ∉ held := fun u hu => by cases (hfree _ hu rfl).2
  refine ⟨fun u l' mode' => ?_, fun u v l' mode' hu hv => ?_, h.fits, h.pendings, fun u e he l' hl' => ?_,
    fun u e he l' d hl' => List.mem_cons_of_mem _ (h.writes u e he l' d hl'), fun u hu => ?_, fun u l' hl' => ?_, fun l' hl' => ?_⟩
  · by_cases hut : u = t
    · subst hut
      rw [show (z.regrip u _).grip u = ⟨(l, mode) :: (z.grip u).held, false⟩ from Function.update_self ..]
      simp [h.grips]
    · rw [show (z.regrip t _).grip u = z.grip u from Function.update_of_ne hut .., h.grips]
      simp [hut]
  · rcases List.mem_cons.mp hu with hnew | hold
    · cases hnew
      rcases List.mem_cons.mp hv with hnew' | hold'
      · cases hnew'
        exact ⟨rfl, rfl⟩
      · exact (hnone rfl v mode' hold').elim
    · rcases List.mem_cons.mp hv with hnew' | hold'
      · cases hnew'
        exact (hshared u hold).elim
      · exact h.alone u v l' mode' hold hold'
  · obtain ⟨mode', hmode'⟩ := h.reads u e he l' hl'
    exact ⟨mode', List.mem_cons_of_mem _ hmode'⟩
  · by_cases hut : u = t
    · subst hut
      rw [show (z.regrip u _).grip u = ⟨(l, mode) :: (z.grip u).held, false⟩ from Function.update_self ..] at hu
      cases hu
    · exact h.quiet u (by rwa [show (z.regrip t _).grip u = z.grip u from Function.update_of_ne hut ..] at hu)
  · rcases List.mem_cons.mp hl' with heq | hold
    · cases heq
      rw [show (z.regrip t _).pending t = z.pending t from rfl, h.dataAfter_pending (hshared t)]
      exact h.rest l hshared
    · exact h.own u l' hold
  · exact h.rest l' fun u hu => hl' u (List.mem_cons_of_mem _ hu)

/-- A thread reads what its section shows. -/
theorem data_eq (h : Scheduled data₀ data held z) {l : L} {mode : LockMode} (hl : (t, l, mode) ∈ held) :
    data l = dataAfter (z.now data₀) (z.pending t) l := by
  by_cases hex : (t, l, .exclusive) ∈ held
  · exact h.own t l hex
  · rw [h.dataAfter_pending hex]
    refine h.rest l fun u hu => hex ?_
    rwa [(h.alone u t l mode hu hl).1]

/-- A disciplined call of a thread is pending. -/
theorem defer (h : Scheduled data₀ data held z) {c : LockCall L D ι} (a : c.Answer ρ)
    (hquiet : (z.grip t).released = true → c.isAccess = false) (hread : ∀ l, c = .get l → ∃ mode, (t, l, mode) ∈ held)
    (hwrite : ∀ l d, c = .set l d → (t, l, .exclusive) ∈ held) :
    Scheduled data₀ (c.update data) held (z.defer t ⟨c, c.answer data a⟩) := by
  have hself : (z.defer t ⟨c, c.answer data a⟩).pending t = z.pending t ++ [⟨c, c.answer data a⟩] := Function.update_self ..
  have hother : ∀ u, u ≠ t → (z.defer t ⟨c, c.answer data a⟩).pending u = z.pending u := fun u hu => Function.update_of_ne hu ..
  have hcases : ∀ u, ∀ e ∈ (z.defer t ⟨c, c.answer data a⟩).pending u, e ∈ z.pending u ∨ u = t ∧ e.1 = c := by
    intro u e he
    by_cases hu : u = t
    · subst hu
      rw [hself, List.mem_append, List.mem_singleton] at he
      rcases he with he | rfl
      · exact Or.inl he
      · exact Or.inr ⟨rfl, rfl⟩
    · rw [hother u hu] at he
      exact Or.inl he
  refine ⟨h.grips, h.alone, h.fits, fun u => ?_, fun u e he l hl => ?_, fun u e he l d hl => ?_, fun u hu e he => ?_,
    fun u l hl => ?_, fun l hl => ?_⟩
  · by_cases hu : u = t
    · subst hu
      rw [hself]
      refine fits_append.mpr ⟨h.pendings u, ?_, trivial⟩
      cases c with
      | get l =>
        obtain ⟨mode, hmode⟩ := hread l rfl
        exact h.data_eq hmode
      | _ => rfl
    · rw [hother u hu]
      exact h.pendings u
  · rcases hcases u e he with he | ⟨rfl, rfl⟩
    · exact h.reads u e he l hl
    · exact hread l hl
  · rcases hcases u e he with he | ⟨rfl, rfl⟩
    · exact h.writes u e he l d hl
    · exact hwrite l d hl
  · rcases hcases u e he with he | ⟨rfl, rfl⟩
    · exact h.quiet u hu e he
    · exact hquiet hu
  · by_cases hu : u = t
    · subst hu
      rw [hself, dataAfter_append]
      exact c.update_congr (h.own u l hl)
    · rw [hother u hu]
      refine (LockCall.update_apply_of_not_set (fun d hd => hu ?_) data).trans (h.own u l hl)
      exact ((h.alone t u l _ (hwrite l d hd) hl).1)
  · refine (LockCall.update_apply_of_not_set (fun d hd => ?_) data).trans (h.rest l hl)
    exact hl t (hwrite l d hd)

end Scheduled

namespace Schedule

theorem schedule_snoc (log : List (LockLabel D ρ M)) (l : LockLabel D ρ M) :
    schedule (log ++ [l]) = (schedule log).next l :=
  List.foldl_append ..

/-- A call changes what its thread holds, as the call says. -/
theorem grip_next_call (z : Schedule D ρ) (t : Nat) (e : LockEvent D ρ) :
    (z.next (.call t e : LockLabel D ρ M)).grip = Function.update z.grip t (e.1.grip (z.grip t)) := by
  simp only [next]
  split <;> rfl

theorem grip_next_drop (z : Schedule D ρ) (t : Nat) :
    (z.next (.env t : LockLabel D ρ M)).grip = Function.update z.grip t ⟨[], true⟩ := by
  simp only [next]
  split <;> rfl

omit [DecidableEq L] in
theorem regrip_self (z : Schedule D ρ) (t : Nat) : z.regrip t (z.grip t) = z := by
  simp [regrip]

end Schedule

/-- A disciplined call of a thread keeps the data and the locks together with the history. -/
theorem Scheduled.next [LT L] {again : Bool} {data₀ data : (l : L) → D l} {held : List (Nat × L × LockMode)}
    {z : Schedule D ρ} {t : Nat} {c : LockCall L D ι} (h : Scheduled data₀ data held z) (a : c.Answer ρ)
    (hkeeps : c.Keeps again (z.grip t)) (hgranted : c.Granted held) :
    Scheduled data₀ (c.update data) (c.hold t held) (z.next (.call t ⟨c, c.answer data a⟩ : LockLabel D ρ M)) := by
  have hsame : ∀ e : LockEvent D ρ, e.1.isRelease = false → e.1.grip (z.grip t) = z.grip t →
      z.next (.call t e : LockLabel D ρ M) = z.defer t e := by
    intro e he hg
    simp only [Schedule.next, he, hg, Bool.false_and, Bool.false_eq_true, if_false]
    exact Schedule.regrip_self (z.defer t e) t
  cases c with
  | acquire l mode =>
    exact (h.defer (c := .acquire l mode) a (fun _ => rfl) (fun l hl => by cases hl) (fun l d hl => by cases hl)).gain hgranted
  | get l =>
    obtain ⟨hheld, mode, hmode⟩ := hkeeps
    rw [hsame _ rfl rfl]
    refine h.defer (c := .get l) a (fun hreleased => ?_) (fun l' hl' => ?_) (fun l d hl => by cases hl)
    · rw [hheld] at hreleased
      cases hreleased
    · cases hl'
      exact ⟨mode, (h.grips t l mode).mp hmode⟩
  | set l d =>
    obtain ⟨hheld, hmode⟩ := hkeeps
    rw [hsame _ rfl rfl]
    refine h.defer (c := .set l d) a (fun hreleased => ?_) (fun l hl => by cases hl) (fun l' d' hl' => ?_)
    · rw [hheld] at hreleased
      cases hreleased
    · cases hl'
      exact (h.grips t l _).mp hmode
  | outside i =>
    rw [hsame _ rfl rfl]
    exact h.defer (c := .outside i) a (fun _ => rfl) (fun l hl => by cases hl) (fun l d hl => by cases hl)
  | release l =>
    have hsub : ∀ x ∈ LockCall.hold t (.release l : LockCall L D ι) held, x ∈ held := fun x hx => (List.mem_filter.mp hx).1
    have hothers : ∀ u l' mode, u ≠ t → (u, l', mode) ∈ held →
        (u, l', mode) ∈ LockCall.hold t (.release l : LockCall L D ι) held := by
      intro u l' mode hu hmem
      exact List.mem_filter.mpr ⟨hmem, by simp [hu]⟩
    have hgrip : ∀ l' mode, (l', mode) ∈ ((.release l : LockCall L D ι).grip (z.grip t)).held ↔
        (t, l', mode) ∈ LockCall.hold t (.release l : LockCall L D ι) held := by
      intro l' mode
      simp [LockCall.grip, LockCall.hold, List.mem_filter, h.grips]
    simp only [Schedule.next]
    split
    · have hcommit := h.commit t [⟨.release l, a⟩] fun e he => by
        rw [List.mem_singleton.mp he]
        rfl
      refine hcommit.lose ?_ hsub hothers hgrip
      rw [show (z.commit t _).pending t = [] from Function.update_self ..]
      exact fun e he => by cases he
    · rename_i hreleased
      have hdefer := h.defer (c := .release l) (t := t) a (fun _ => rfl) (fun l hl => by cases hl) (fun l d hl => by cases hl)
      refine hdefer.lose (hdefer.quiet t ?_) hsub hothers hgrip
      simpa [LockCall.isRelease, Schedule.defer] using hreleased

/-- Dropping a thread does, too. -/
theorem Scheduled.drop {data₀ data : (l : L) → D l} {held : List (Nat × L × LockMode)} {z : Schedule D ρ}
    (h : Scheduled data₀ data held z) (t : Nat) :
    Scheduled data₀ data (held.filter fun h => !(h.1 == t)) (z.next (.env t : LockLabel D ρ M)) := by
  have hsub : ∀ x ∈ held.filter fun h => !(h.1 == t), x ∈ held := fun x hx => (List.mem_filter.mp hx).1
  have hothers : ∀ u l' mode, u ≠ t → (u, l', mode) ∈ held → (u, l', mode) ∈ held.filter fun h => !(h.1 == t) := by
    intro u l' mode hu hmem
    exact List.mem_filter.mpr ⟨hmem, by simp [hu]⟩
  have hgrip : ∀ l' mode, (l', mode) ∈ ([] : List (L × LockMode)) ↔ (t, l', mode) ∈ held.filter fun h => !(h.1 == t) := by
    intro l' mode
    simp
  simp only [Schedule.next]
  split
  · rename_i hreleased
    exact h.lose (h.quiet t hreleased) hsub hothers hgrip
  · have hcommit := h.commit t [] fun e he => by cases he
    refine hcommit.lose ?_ hsub hothers hgrip
    rw [show (z.commit t _).pending t = [] from Function.update_self ..]
    exact fun e he => by cases he

namespace Locked

variable [LT L] {again : Bool} {start : M → LockProg D ρ Unit} {data₀ : (l : L) → D l} {x y : Locked D ρ M}

/-- What a run comes to: its data and locks hang together with its history, and each thread keeps the discipline on. -/
structure Sorted (again : Bool) (data₀ : (l : L) → D l) (x : Locked D ρ M) : Prop where
  scheduled : Scheduled data₀ x.data x.held (schedule x.log)
  threads : ∀ t m q, x.threads t = some (m, q) →
    q.wp (discipline D ρ again) ((schedule x.log).grip t) (fun g _ => g.held = [])
  fresh : ∀ t, x.threads t = none → (schedule x.log).grip t = ⟨[], false⟩

theorem Sorted.step (hstart : ∀ m, Disciplined again (start m)) (h : Sorted again data₀ x) {l : LockLabel D ρ M}
    (hs : Step start x l y) : Sorted again data₀ y := by
  cases hs with
  | deliver t m hn =>
    refine ⟨?_, fun u m' q hu => ?_, fun u hu => ?_⟩ <;> simp only [Schedule.schedule_snoc]
    · exact h.scheduled
    · by_cases hut : u = t
      · subst hut
        simp only [Function.update_self, Option.some.injEq, Prod.mk.injEq] at hu
        show q.wp _ ((schedule x.log).grip u) _
        rw [h.fresh u hn, ← hu.2]
        exact hstart m
      · simp only [Function.update_of_ne hut] at hu
        exact h.threads u m' q hu
    · by_cases hut : u = t
      · subst hut
        simp only [Function.update_self] at hu
        cases hu
      · simp only [Function.update_of_ne hut] at hu
        exact h.fresh u hu
  | @call t m c k r hc hgranted =>
    obtain ⟨hkeeps, hrest⟩ := h.threads t m _ hc
    refine ⟨?_, fun u m' q hu => ?_, fun u hu => ?_⟩ <;> simp only [Schedule.schedule_snoc]
    · exact h.scheduled.next r hkeeps hgranted
    · rw [Schedule.grip_next_call]
      by_cases hut : u = t
      · subst hut
        simp only [Function.update_self, Option.some.injEq, Prod.mk.injEq] at hu ⊢
        rw [← hu.2]
        exact hrest _
      · simp only [Function.update_of_ne hut] at hu ⊢
        exact h.threads u m' q hu
    · rw [Schedule.grip_next_call]
      by_cases hut : u = t
      · subst hut
        simp only [Function.update_self] at hu
        cases hu
      · simp only [Function.update_of_ne hut] at hu ⊢
        exact h.fresh u hu
  | @drop t m q hq =>
    refine ⟨?_, fun u m' q' hu => ?_, fun u hu => ?_⟩ <;> simp only [Schedule.schedule_snoc]
    · exact h.scheduled.drop t
    · rw [Schedule.grip_next_drop]
      by_cases hut : u = t
      · subst hut
        simp only [Function.update_self, Option.some.injEq, Prod.mk.injEq] at hu ⊢
        rw [← hu.2]
        rfl
      · simp only [Function.update_of_ne hut] at hu ⊢
        exact h.threads u m' q' hu
    · rw [Schedule.grip_next_drop]
      by_cases hut : u = t
      · subst hut
        simp only [Function.update_self] at hu
        cases hu
      · simp only [Function.update_of_ne hut] at hu ⊢
        exact h.fresh u hu

/-- Every run of disciplined programs is one of sections. -/
theorem Reach.sorted (hstart : ∀ m, Disciplined again (start m)) (h : Reach start (init data₀) x) : Sorted again data₀ x := by
  induction h with
  | refl =>
    refine ⟨⟨fun t l mode => ?_, fun t u l mode ht => (by cases ht), trivial, fun t => trivial, fun t e he => (by cases he),
      fun t e he => (by cases he), fun t ht e he => (by cases he), fun t l hl => (by cases hl), fun l _ => rfl⟩,
      fun t m q hq => (by cases hq), fun t _ => rfl⟩
    exact ⟨fun hmem => (by cases hmem), fun hmem => (by cases hmem)⟩
  | step _ hs ih => exact ih.step hstart hs

/-- Where no lock is held the data are what the sections make of the first data, carried out one after the other. -/
theorem Reach.scheduled (hstart : ∀ m, Disciplined again (start m)) (h : Reach start (init data₀) x) (hheld : x.held = []) :
    Fits data₀ (schedule x.log).serial ∧ dataAfter data₀ (schedule x.log).serial = x.data := by
  have hsorted := (h.sorted hstart).scheduled
  refine ⟨hsorted.fits, funext fun l => (hsorted.rest l fun t ht => ?_).symm⟩
  rw [hheld] at ht
  cases ht

/-! ## No deadlock -/

omit [LT L] in
/-- A call that is granted is a step. -/
theorem exists_step_of_granted {t : Nat} {m : M} {c : LockCall L D ι} {k : c.Answer ρ → LockProg D ρ Unit}
    (hanswer : ∀ i, Nonempty (ρ i)) (ht : x.threads t = some (m, .call c k)) (hgranted : c.Granted x.held) :
    ∃ e y, Step start x (.call t e) y := by
  have ha : Nonempty (c.Answer ρ) := by
    cases c with
    | acquire l mode => exact ⟨()⟩
    | release l => exact ⟨()⟩
    | get l => exact ⟨x.data l⟩
    | set l d => exact ⟨()⟩
    | outside i => exact hanswer i
  obtain ⟨a⟩ := ha
  exact ⟨_, _, .call a ht hgranted⟩

/-- As long as a thread has a call to make, some thread can make its next call: a thread that waits waits for a thread that
holds a lower lock than the one it waits for itself. -/
theorem Reach.progress [WellFoundedGT L] {again : Bool} (hstart : ∀ m, Disciplined again (start m))
    (hanswer : ∀ i, Nonempty (ρ i)) (h : Reach start (init data₀) x) {t : Nat} {m : M} {c : LockCall L D ι}
    {k : c.Answer ρ → LockProg D ρ Unit} (ht : x.threads t = some (m, .call c k)) :
    ∃ u e y, Step start x (.call u e) y := by
  have hsorted := h.sorted hstart
  have hwait : ∀ l : L, ∀ t m mode (k : Unit → LockProg D ρ Unit), x.threads t = some (m, .call (.acquire l mode) k) →
      ∃ u e y, Step start x (.call u e) y := by
    intro l
    induction l using WellFoundedGT.induction with
    | ind l ih =>
      intro t m mode k ht
      by_cases hfree : Available x.held l mode
      · exact ⟨t, exists_step_of_granted hanswer ht hfree⟩
      simp only [Available, not_forall] at hfree
      obtain ⟨⟨u, l', mode'⟩, hheld, rfl, -⟩ := hfree
      have hgrip := (hsorted.scheduled.grips u l' mode').mpr hheld
      cases hu : x.threads u with
      | none =>
        rw [hsorted.fresh u hu] at hgrip
        cases hgrip
      | some th =>
        obtain ⟨m', q⟩ := th
        have hq := hsorted.threads u m' q hu
        cases q with
        | ret _ =>
          rw [show ((schedule x.log).grip u).held = [] from hq] at hgrip
          cases hgrip
        | call c k' =>
          cases c with
          | acquire l'' mode'' => exact ih l'' (hq.1.2 _ hgrip) u m' mode'' k' hu
          | _ => exact ⟨u, exists_step_of_granted hanswer hu trivial⟩
  cases c with
  | acquire l mode => exact hwait l t m mode k ht
  | _ => exact ⟨t, exists_step_of_granted hanswer ht trivial⟩

/-! ## Running the machine -/

section Run

omit [LT L]

instance (held : List (Nat × L × LockMode)) (l : L) (mode : LockMode) : Decidable (Available held l mode) :=
  inferInstanceAs (Decidable (∀ h ∈ held, _))

instance (held : List (Nat × L × LockMode)) (c : LockCall L D ι) : Decidable (c.Granted held) :=
  match c with
  | .acquire l mode => inferInstanceAs (Decidable (Available held l mode))
  | .release _ => inferInstanceAs (Decidable True)
  | .get _ => inferInstanceAs (Decidable True)
  | .set _ _ => inferInstanceAs (Decidable True)
  | .outside _ => inferInstanceAs (Decidable True)

/-- The state after a step asked for, if it is possible. -/
def act (start : M → LockProg D ρ Unit) (x : Locked D ρ M) :
    Pool.Action (LockCall L D ι) (LockCall.Answer ρ) M Nat → Option (Locked D ρ M)
  | .deliver t m =>
    match x.threads t with
    | none => some
        { x with threads := Function.update x.threads t (some (m, start m)), log := x.log ++ [.deliver t m] }
    | some _ => none
  | .call t answer =>
    match x.threads t with
    | some (m, .call c k) =>
      if c.Granted x.held then
        (answer c).map fun r =>
          { data := c.update x.data
            threads := Function.update x.threads t (some (m, k (c.answer x.data r)))
            held := c.hold t x.held
            log := x.log ++ [.call t ⟨c, c.answer x.data r⟩] }
      else none
    | _ => none
  | .env t =>
    match x.threads t with
    | some (m, _) => some
        { x with
          threads := Function.update x.threads t (some (m, .ret ()))
          held := x.held.filter fun h => !(h.1 == t)
          log := x.log ++ [.env t] }
    | none => none

/-- Run a list of steps asked for. -/
def exec (start : M → LockProg D ρ Unit) (x : Locked D ρ M) :
    List (Pool.Action (LockCall L D ι) (LockCall.Answer ρ) M Nat) → Option (Locked D ρ M)
  | [] => some x
  | a :: as => (x.act start a).bind fun y => y.exec start as

theorem reach_of_act {x₀ : Locked D ρ M} (hx : Reach start x₀ x)
    {a : Pool.Action (LockCall L D ι) (LockCall.Answer ρ) M Nat} (h : x.act start a = some y) : Reach start x₀ y := by
  cases a with
  | deliver t m =>
    simp only [act] at h
    split at h
    · rename_i ht
      cases h
      exact .step hx (.deliver t m ht)
    · cases h
  | call t answer =>
    simp only [act] at h
    split at h
    · rename_i m c k ht
      split at h
      · rename_i hgranted
        obtain ⟨r, -, rfl⟩ := Option.map_eq_some_iff.mp h
        exact .step hx (.call r ht hgranted)
      · cases h
    · cases h
  | env t =>
    simp only [act] at h
    split at h
    · rename_i m q ht
      cases h
      exact .step hx (.drop t ht)
    · cases h

theorem reach_of_exec {x₀ : Locked D ρ M} {as : List (Pool.Action (LockCall L D ι) (LockCall.Answer ρ) M Nat)} :
    ∀ {x y : Locked D ρ M}, Reach start x₀ x → x.exec start as = some y → Reach start x₀ y := by
  induction as with
  | nil =>
    intro x y hx h
    cases h
    exact hx
  | cons a as ih =>
    intro x y hx h
    obtain ⟨z, hz, h'⟩ := Option.bind_eq_some_iff.mp h
    exact ih (reach_of_act hx hz) h'

/-- The lock that the next call of a thread acquires, if it acquires one. -/
def awaits (x : Locked D ρ M) (t : Nat) : Option (L × LockMode) :=
  match x.threads t with
  | some (_, .call (.acquire l mode) _) => some (l, mode)
  | some (_, .call (.release _) _) => none
  | some (_, .call (.get _) _) => none
  | some (_, .call (.set _ _) _) => none
  | some (_, .call (.outside _) _) => none
  | some (_, .ret _) => none
  | none => none

omit [DecidableEq L] in
theorem exists_acquire_of_awaits {t : Nat} {l : L} {mode : LockMode} (h : x.awaits t = some (l, mode)) :
    ∃ m k, x.threads t = some (m, .call (.acquire l mode) k) := by
  unfold awaits at h
  split at h
  · rename_i m l' mode' k ht
    cases h
    exact ⟨m, k, ht⟩
  all_goals cases h

/-- A run that computes, with what a test says of the state it ends in. -/
theorem exists_reach_of_exec {x₀ : Locked D ρ M} {as : List (Pool.Action (LockCall L D ι) (LockCall.Answer ρ) M Nat)}
    {test : Locked D ρ M → Bool} (h : (x₀.exec start as).any test = true) : ∃ x, Reach start x₀ x ∧ test x = true := by
  cases he : x₀.exec start as with
  | none =>
    rw [he] at h
    cases h
  | some x =>
    rw [he] at h
    exact ⟨x, reach_of_exec .refl he, h⟩

end Run

end Locked

end Machine

end Interleave
