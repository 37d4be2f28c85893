import ChainBridge.Lemmas.Sample
import ChainBridge.Supervisor
import Mathlib.Data.List.DropRight

/-!
# What the supervisor guarantees

The supervised bridge is the bridge, run by the supervisor: its handlers are those of a run of the bridge, and its sessions end where
those of the bridge do. Over that run the workers bound what is worked on at once, and a session ends only for a cause.
-/

namespace ChainBridge

open Interleave

/-- What a worker waits before it opens its messages again, after this many failures in a row. -/
def retryMs : Nat → Nat
  | 0 => 100
  | n + 1 => min (retryMs n * 2) 5000

/-- What the supervisor waits, for each time in a row. -/
def reconnectMs : Nat → Nat
  | 0 => 500
  | n + 1 => min (reconnectMs n * 2) 30000

/-- What happened to a worker. -/
def eventsOf (w : Worker) (log : List SupervisorEvent) : List WorkerEvent :=
  log.filterMap fun
    | .worker w' e => if w' = w then some e else none
    | _ => none

/-- Whether a worker failed to open its messages, or slept after that. -/
def WorkerEvent.isAttempt : WorkerEvent → Bool
  | .openFailed => true
  | .backedOff _ => true
  | _ => false

/-- What a worker tried in vain since its messages were last open. -/
def attempts (w : Worker) (log : List SupervisorEvent) : List WorkerEvent := (eventsOf w log).rtakeWhile WorkerEvent.isAttempt

/-- What a worker may try in vain: it gives up at the fifth failure in a row. -/
def allAttempts : List WorkerEvent :=
  [.openFailed, .backedOff 100, .openFailed, .backedOff 200, .openFailed, .backedOff 400, .openFailed, .backedOff 800, .openFailed]

/-- What the supervisor waited since it was last connected. -/
def waits (log : List SupervisorEvent) : List Nat :=
  (log.rtakeWhile fun e => e ≠ .connected).filterMap fun
    | .slept ms => some ms
    | _ => none

namespace SupervisorAux

variable {Γ : Ctx} {w : Session} {s s' : Supervised}

/-! ## The steps -/

/-- The workers stop at an error of one of them: it could not fetch its consumer, or failed to open its messages once more. -/
theorem error_cases {c : RunConsumer} {e : WorkerEvent} (h : c.step e = some (.error ())) :
    (c = .starting ∧ e = .unready) ∨ ∃ n ms, c = .opening n ms ∧ e = .openFailed ∧ 4 ≤ n := by
  cases c with
  | starting => cases e <;> first | exact Or.inl ⟨rfl, rfl⟩ | cases h
  | opening n ms =>
    cases e <;> first
      | cases h
      | (simp only [RunConsumer.step] at h
         split at h
         · exact Or.inr ⟨n, ms, rfl, rfl, by omega⟩
         · cases h)
  | backingOff n ms =>
    cases e <;> first
      | cases h
      | (simp only [RunConsumer.step] at h
         split at h <;> cases h)
  | streaming ended => cases ended <;> cases e <;> cases h
  | pausing =>
    cases e <;> first
      | cases h
      | (simp only [RunConsumer.step] at h
         split at h <;> cases h)

/-- A step of the supervisor while the workers run is a step of one of them. -/
theorem running_cases {ws : Worker → RunConsumer} {e : SupervisorEvent} {next : Supervisor}
    (h : (Supervisor.running ws).step e = some next) : ∃ wk we, e = .worker wk we ∧
      ((∃ c, (ws wk).step we = some (.ok c) ∧ next = .running (Function.update ws wk c)) ∨
        ((ws wk).step we = some (.error ()) ∧ next = .waiting 500)) := by
  cases e with
  | worker wk we =>
    simp only [Supervisor.step] at h
    split at h
    · rename_i c hc
      cases h
      exact ⟨wk, we, rfl, Or.inl ⟨c, hc, rfl⟩⟩
    · rename_i hc
      cases h
      exact ⟨wk, we, rfl, Or.inr ⟨hc, rfl⟩⟩
    · cases h
  | _ => cases h

/-- A step of the supervisor that is possible. -/
theorem control_cases {e : SupervisorEvent} (h : s.act Γ (.control e) = some s') :
    ∃ next hall, s.supervisor.step e = some next ∧ s.admits e = true ∧ s.hallAfter Γ next = some hall ∧
      s' = { supervisor := next, hall, log := s.log ++ [e] } := by
  simp only [Supervised.act] at h
  split at h
  · rename_i next hnext
    split at h
    · rename_i hadmits
      obtain ⟨hall, hhall, rfl⟩ := Option.map_eq_some_iff.mp h
      exact ⟨next, hall, hnext, hadmits, hhall, rfl⟩
    · cases h
  · cases h

/-- A step around the handlers that is possible. -/
theorem handlers_cases {a : Hall.Action Call Call.Answer Delivery Move Worker} (h : s.act Γ (.handlers a) = some s') :
    ∃ hall, s.supervisor.permits a = true ∧ s.hall.act (bridge Γ) workers a = some hall ∧ s' = { s with hall } := by
  simp only [Supervised.act] at h
  split at h
  · rename_i hpermits
    obtain ⟨hall, hhall, rfl⟩ := Option.map_eq_some_iff.mp h
    exact ⟨hall, hpermits, hhall, rfl⟩
  · cases h

/-- The handlers after a step of the supervisor: as before, or none, when the workers stopped. -/
theorem hallAfter_cases {next : Supervisor} {hall : Hall Call Call.Answer Session Delivery Move Worker}
    (h : s.hallAfter Γ next = some hall) :
    (s.supervisor.isRunning = true ∧ next.isRunning = false ∧ s.hall.act (bridge Γ) workers (.env .reconnect) = some hall) ∨
      ((s.supervisor.isRunning = true → next.isRunning = true) ∧ hall = s.hall) := by
  unfold Supervised.hallAfter at h
  split at h
  · rename_i hstop
    rw [Bool.and_eq_true, Bool.not_eq_true'] at hstop
    exact Or.inl ⟨hstop.1, hstop.2, h⟩
  · rename_i hgo
    cases h
    refine Or.inr ⟨fun hrun => ?_, rfl⟩
    rw [hrun, Bool.true_and, Bool.not_eq_true', Bool.not_eq_false] at hgo
    exact hgo

/-! ## The handlers -/

/-- What holds of the handlers: they are those of a run of the bridge, in flight at workers whose stream is open. -/
structure HandlersOk (Γ : Ctx) (w : Session) (s : Supervised) : Prop where
  pool : Pool.Reach (bridge Γ) (fun _ _ _ => True) (Pool.init w) s.hall.pool
  hall : s.hall.Ok workers
  streaming : ∀ wk t, t ∈ s.hall.inFlight wk → ∃ ws ended, s.supervisor = .running ws ∧ ws wk = .streaming ended

theorem handlersOk_init (Γ : Ctx) (w : Session) : HandlersOk Γ w (.init w) where
  pool := .refl
  hall := Hall.ok_init workers w
  streaming := fun wk t ht => by cases ht

/-- A step of the hall is one of the bridge. -/
theorem HandlersOk.pool_act (h : HandlersOk Γ w s) {a : Hall.Action Call Call.Answer Delivery Move Worker}
    {hall : Hall Call Call.Answer Session Delivery Move Worker} (hact : s.hall.act (bridge Γ) workers a = some hall) :
    Pool.Reach (bridge Γ) (fun _ _ _ => True) (Pool.init w) hall.pool := by
  rcases Hall.pool_of_act hact with hsame | ⟨l, hstep⟩
  · rw [hsame]
    exact h.pool
  · exact .step h.pool trivial hstep

/-- A worker that goes on has its stream open as long as it has handlers in flight. -/
theorem streaming_of_step {c c' : RunConsumer} {e : WorkerEvent} {ended : Bool} (hc : c = .streaming ended)
    (h : c.step e = some (.ok c')) (hdrained : e ≠ .drained) : ∃ ended', c' = .streaming ended' := by
  subst hc
  cases ended <;> cases e <;> first
    | exact (hdrained rfl).elim
    | cases h; exact ⟨_, rfl⟩
    | cases h

theorem HandlersOk.control (h : HandlersOk Γ w s) {e : SupervisorEvent} (hact : s.act Γ (.control e) = some s') :
    HandlersOk Γ w s' := by
  obtain ⟨next, hall, hstep, hadmits, hafter, rfl⟩ := control_cases hact
  rcases hallAfter_cases hafter with ⟨-, -, hcut⟩ | ⟨hgo, rfl⟩
  · refine ⟨h.pool_act hcut, h.hall.act hcut, fun wk t ht => ?_⟩
    rw [show hall.inFlight wk = [] from Hall.inFlight_of_cut hcut rfl wk] at ht
    cases ht
  · refine ⟨h.pool, h.hall, fun wk t ht => ?_⟩
    obtain ⟨ws, ended, hws, hwk⟩ := h.streaming wk t ht
    rw [hws] at hstep hgo
    obtain ⟨wk', we, rfl, ⟨c, hc, rfl⟩ | ⟨-, rfl⟩⟩ := running_cases hstep
    · by_cases hsame : wk = wk'
      · subst hsame
        have hdrained : we ≠ .drained := by
          rintro rfl
          rw [Supervised.admits, List.isEmpty_iff] at hadmits
          rw [hadmits] at ht
          cases ht
        obtain ⟨ended', hc'⟩ := streaming_of_step hwk hc hdrained
        exact ⟨_, ended', rfl, (Function.update_self ..).trans hc'⟩
      · exact ⟨_, ended, rfl, (Function.update_of_ne hsame ..).trans hwk⟩
    · cases hgo rfl

theorem HandlersOk.handlers (h : HandlersOk Γ w s) {a : Hall.Action Call Call.Answer Delivery Move Worker}
    (hact : s.act Γ (.handlers a) = some s') : HandlersOk Γ w s' := by
  obtain ⟨hall, hpermits, hhall, rfl⟩ := handlers_cases hact
  refine ⟨h.pool_act hhall, h.hall.act hhall, fun wk t ht => ?_⟩
  rcases Hall.inFlight_of_act hhall ht with ht | ⟨m, rfl⟩
  · exact h.streaming wk t ht
  · simp only [Supervisor.permits, Supervisor.pulls] at hpermits
    split at hpermits
    · rename_i ws hws
      exact ⟨ws, false, hws, of_decide_eq_true hpermits⟩
    · cases hpermits

theorem handlersOk_of_reach (h : Supervised.Reach Γ w s) : HandlersOk Γ w s := by
  induction h with
  | init => exact handlersOk_init Γ w
  | @step s s' a _ hact ih =>
    cases a with
    | control e => exact ih.control hact
    | handlers a => exact ih.handlers hact

/-- No two workers take the same message. -/
theorem takes_unique {wk wk' : Worker} {d : Delivery} (h : workers.takes wk d = true) (h' : workers.takes wk' d = true) :
    wk' = wk := by
  have hmem : d.subject ∈ wk.filterSubjects := List.contains_iff_mem.mp h
  have hmem' : d.subject ∈ wk'.filterSubjects := List.contains_iff_mem.mp h'
  generalize d.subject = subject at hmem hmem'
  cases wk with
  | fast =>
    cases wk' with
    | fast => rfl
    | mint =>
      obtain rfl := List.mem_singleton.mp hmem'
      exact absurd hmem (by decide)
  | mint =>
    cases wk' with
    | fast =>
      obtain rfl := List.mem_singleton.mp hmem
      exact absurd hmem' (by decide)
    | mint => rfl

/-- A worker whose stream is not open runs no handler. -/
theorem HandlersOk.not_running (h : HandlersOk Γ w s) {ws : Worker → RunConsumer} (hws : s.supervisor = .running ws)
    {wk : Worker} (hwk : ∀ ended, ws wk ≠ .streaming ended) (t : Nat) {d : Delivery} (hd : workers.takes wk d = true) :
    ¬s.hall.pool.Running t d := by
  refine h.hall.not_running (l := wk) (List.eq_nil_iff_forall_not_mem.mpr fun t' ht' => ?_) fun wk' hd' => takes_unique hd hd'
  obtain ⟨ws', ended, hws', hwk'⟩ := h.streaming wk t' ht'
  cases hws.symm.trans hws'
  exact hwk ended hwk'

/-! ## The attempts of a worker -/

/-- What a worker tried in vain when it stands here. -/
def Tried (es : List WorkerEvent) : RunConsumer → Prop
  | .starting => True
  | .opening n ms => n ≤ 4 ∧ ms = retryMs n ∧ es = allAttempts.take (2 * n)
  | .backingOff n ms => ∃ k ≤ 3, n = k + 1 ∧ ms = retryMs k ∧ es = allAttempts.take (2 * k + 1)
  | .streaming _ => es = []
  | .pausing => es = []

/-- What was tried in vain after one more event. -/
def triedNext (es : List WorkerEvent) (e : WorkerEvent) : List WorkerEvent := if e.isAttempt = true then es ++ [e] else []

theorem tried_step {es : List WorkerEvent} {c c' : RunConsumer} {e : WorkerEvent} (h : Tried es c)
    (hstep : c.step e = some (.ok c')) : Tried (triedNext es e) c' := by
  cases c with
  | starting =>
    cases e <;> first
      | cases hstep; exact ⟨Nat.zero_le 4, rfl, rfl⟩
      | cases hstep
  | opening n ms =>
    obtain ⟨-, rfl, rfl⟩ := h
    cases e with
    | opened =>
      cases hstep
      rfl
    | openFailed =>
      simp only [RunConsumer.step] at hstep
      split at hstep
      · cases hstep
      · rename_i hn
        cases hstep
        have hcases : n = 0 ∨ n = 1 ∨ n = 2 ∨ n = 3 := by omega
        rcases hcases with rfl | rfl | rfl | rfl <;> exact ⟨_, by decide, rfl, rfl, rfl⟩
    | _ => cases hstep
  | backingOff n ms =>
    obtain ⟨k, hk, rfl, rfl, rfl⟩ := h
    cases e with
    | backedOff ms =>
      simp only [RunConsumer.step] at hstep
      split at hstep
      · rename_i hms
        cases hstep
        subst hms
        have hcases : k = 0 ∨ k = 1 ∨ k = 2 ∨ k = 3 := by omega
        rcases hcases with rfl | rfl | rfl | rfl <;> exact ⟨by decide, rfl, rfl⟩
      · cases hstep
    | _ => cases hstep
  | streaming ended =>
    cases ended <;> cases e <;> first
      | cases hstep; rfl
      | cases hstep
  | pausing =>
    cases e with
    | paused ms =>
      simp only [RunConsumer.step] at hstep
      split at hstep
      · cases hstep
        exact ⟨Nat.zero_le 4, rfl, rfl⟩
      · cases hstep
    | _ => cases hstep

/-- A worker that stands somewhere it can have tried only what it may. -/
theorem tried_prefix {es : List WorkerEvent} {c : RunConsumer} (h : Tried es c) (hc : c ≠ .starting) : es <+: allAttempts := by
  cases c with
  | starting => exact (hc rfl).elim
  | opening n ms =>
    obtain ⟨-, -, rfl⟩ := h
    exact List.take_prefix ..
  | backingOff n ms =>
    obtain ⟨k, -, -, -, rfl⟩ := h
    exact List.take_prefix ..
  | streaming ended =>
    obtain rfl := h
    exact List.nil_prefix
  | pausing =>
    obtain rfl := h
    exact List.nil_prefix

/-- A worker that stands at its start has just been started, or fails. -/
theorem starting_of_step {c : RunConsumer} {e : WorkerEvent} (h : c.step e = some (.ok .starting)) : False := by
  cases c with
  | streaming ended => cases ended <;> cases e <;> cases h
  | _ => cases e <;> simp only [RunConsumer.step] at h <;> (try split at h) <;> cases h

/-- What a worker tried when an error of it ends the session: nothing that counts, or all it may. -/
theorem tried_error {es : List WorkerEvent} {c : RunConsumer} {e : WorkerEvent} (h : Tried es c)
    (hstep : c.step e = some (.error ())) :
    (∀ ended, c ≠ .streaming ended) ∧ (e = .unready ∨ e = .openFailed ∧ triedNext es e = allAttempts) := by
  rcases error_cases hstep with ⟨rfl, rfl⟩ | ⟨n, ms, rfl, rfl, hn⟩
  · exact ⟨fun _ hc => (by cases hc), Or.inl rfl⟩
  · obtain ⟨hle, -, rfl⟩ := h
    obtain rfl := Nat.le_antisymm hle hn
    exact ⟨fun _ hc => (by cases hc), Or.inr ⟨rfl, rfl⟩⟩

/-! ## The history of the supervisor -/

theorem attempts_snoc_self (wk : Worker) (e : WorkerEvent) (log : List SupervisorEvent) :
    attempts wk (log ++ [.worker wk e]) = triedNext (attempts wk log) e := by
  have hevents : eventsOf wk (log ++ [.worker wk e]) = eventsOf wk log ++ [e] := by
    simp [eventsOf]
  rw [attempts, hevents, triedNext]
  split
  · rename_i he
    exact List.rtakeWhile_concat_pos _ _ _ he
  · rename_i he
    exact List.rtakeWhile_concat_neg _ _ _ he

theorem attempts_snoc_other {wk : Worker} {e : SupervisorEvent} (h : ∀ we, e ≠ .worker wk we) (log : List SupervisorEvent) :
    attempts wk (log ++ [e]) = attempts wk log := by
  have hevents : eventsOf wk (log ++ [e]) = eventsOf wk log := by
    rw [eventsOf, List.filterMap_append, eventsOf]
    cases e with
    | worker wk' we =>
      have hne : wk' ≠ wk := by
        rintro rfl
        exact h we rfl
      simp [hne]
    | _ => simp
  rw [attempts, hevents, attempts]

theorem waits_snoc_connected (log : List SupervisorEvent) : waits (log ++ [.connected]) = [] := by
  rw [waits, List.rtakeWhile_concat_neg _ _ _ (by simp)]
  rfl

theorem waits_snoc_slept (log : List SupervisorEvent) (ms : Nat) : waits (log ++ [.slept ms]) = waits log ++ [ms] := by
  rw [waits, List.rtakeWhile_concat_pos _ _ _ (by simp), List.filterMap_append]
  rfl

theorem waits_snoc_other {e : SupervisorEvent} (hconnected : e ≠ .connected) (hslept : ∀ ms, e ≠ .slept ms)
    (log : List SupervisorEvent) : waits (log ++ [e]) = waits log := by
  rw [waits, List.rtakeWhile_concat_pos _ _ _ (by simpa using hconnected), List.filterMap_append]
  cases e with
  | slept ms => exact (hslept ms rfl).elim
  | _ => exact List.append_nil _

/-- What the history says of where the supervisor stands: what it waited so far, and what its workers tried. -/
structure LogOk (s : Supervised) : Prop where
  waiting : ∀ ms, s.supervisor = .connecting ms ∨ s.supervisor = .waiting ms →
    ∃ k, waits s.log = (List.range k).map reconnectMs ∧ ms = reconnectMs k
  connected : s.supervisor = .starting ∨ s.supervisor.isRunning = true → waits s.log = []
  tried : ∀ ws, s.supervisor = .running ws → ∀ wk, Tried (attempts wk s.log) (ws wk)
  tries : ∀ wk, attempts wk s.log <+: allAttempts

theorem logOk_init (w : Session) : LogOk (.init w) where
  waiting := by
    rintro ms (h | h) <;> cases h
    exact ⟨0, rfl, rfl⟩
  connected := by
    rintro (h | h) <;> cases h
  tried := fun ws h => by cases h
  tries := fun wk => List.nil_prefix

/-- The history after a step of one of the workers. -/
theorem LogOk.worker (h : LogOk s) {ws : Worker → RunConsumer} (hws : s.supervisor = .running ws) {wk : Worker}
    {we : WorkerEvent} {next : Supervisor} {hall : Hall Call Call.Answer Session Delivery Move Worker}
    (hnext : (∃ c, (ws wk).step we = some (.ok c) ∧ next = .running (Function.update ws wk c)) ∨
      ((ws wk).step we = some (.error ()) ∧ next = .waiting 500)) :
    LogOk { supervisor := next, hall, log := s.log ++ [.worker wk we] } := by
  have hwaits : waits (s.log ++ [.worker wk we]) = [] := by
    rw [waits_snoc_other (fun he => by cases he) (fun ms he => by cases he)]
    exact h.connected (Or.inr (by rw [hws]; rfl))
  have hother : ∀ wk', wk' ≠ wk → attempts wk' (s.log ++ [.worker wk we]) = attempts wk' s.log := fun wk' hne =>
    attempts_snoc_other (fun we' he => by cases he; exact hne rfl) s.log
  have htried := h.tried ws hws wk
  rcases hnext with ⟨c, hc, rfl⟩ | ⟨herror, rfl⟩
  · have hself := tried_step htried hc
    rw [← attempts_snoc_self] at hself
    refine ⟨fun ms hms => ?_, fun _ => hwaits, fun ws' hws' wk' => ?_, fun wk' => ?_⟩
    · rcases hms with hms | hms <;> cases hms
    · cases hws'
      by_cases hsame : wk' = wk
      · subst hsame
        rw [Function.update_self]
        exact hself
      · rw [Function.update_of_ne hsame]
        exact (hother wk' hsame).symm ▸ h.tried ws hws wk'
    · by_cases hsame : wk' = wk
      · subst hsame
        exact tried_prefix hself fun hstarting => starting_of_step (hstarting ▸ hc)
      · exact (hother wk' hsame).symm ▸ h.tries wk'
  · refine ⟨fun ms hms => ?_, fun hrun => ?_, fun ws' hws' => (by cases hws'), fun wk' => ?_⟩
    · rcases hms with hms | hms <;> cases hms
      exact ⟨0, hwaits, rfl⟩
    · rcases hrun with hrun | hrun <;> cases hrun
    · by_cases hsame : wk' = wk
      · subst hsame
        show attempts wk' (s.log ++ [.worker wk' we]) <+: allAttempts
        rw [attempts_snoc_self]
        rcases (tried_error htried herror).2 with rfl | ⟨-, hall⟩
        · exact List.nil_prefix
        · exact hall.symm ▸ List.prefix_refl _
      · exact (hother wk' hsame).symm ▸ h.tries wk'

/-- The history after a step of the supervisor while no worker runs. -/
theorem LogOk.idle (h : LogOk s) (hidle : s.supervisor.isRunning = false) {e : SupervisorEvent} {next : Supervisor}
    (hstep : s.supervisor.step e = some next) {hall : Hall Call Call.Answer Session Delivery Move Worker} :
    LogOk { supervisor := next, hall, log := s.log ++ [e] } := by
  have htries : (∀ wk we, e ≠ .worker wk we) → ∀ wk, attempts wk (s.log ++ [e]) <+: allAttempts := fun he wk =>
    (attempts_snoc_other (he wk) s.log).symm ▸ h.tries wk
  cases hs : s.supervisor with
  | connecting ms =>
    obtain ⟨k, hwaits, rfl⟩ := h.waiting ms (Or.inl hs)
    rw [hs] at hstep
    cases e with
    | connected =>
      cases hstep
      refine ⟨fun ms hms => ?_, fun _ => waits_snoc_connected s.log, fun ws hws => (by cases hws), htries fun _ _ he => by cases he⟩
      rcases hms with hms | hms <;> cases hms
    | connectFailed =>
      cases hstep
      refine ⟨fun ms hms => ?_, fun hrun => ?_, fun ws hws => (by cases hws), htries fun _ _ he => by cases he⟩
      · rcases hms with hms | hms <;> cases hms
        exact ⟨k, (waits_snoc_other (fun he => by cases he) (fun _ he => by cases he) s.log).trans hwaits, rfl⟩
      · rcases hrun with hrun | hrun <;> cases hrun
    | _ => cases hstep
  | starting =>
    have hwaits := h.connected (Or.inl hs)
    rw [hs] at hstep
    cases e with
    | streamReady =>
      cases hstep
      refine ⟨fun ms hms => ?_, fun _ => ?_, fun ws hws wk => ?_, htries fun _ _ he => by cases he⟩
      · rcases hms with hms | hms <;> cases hms
      · exact (waits_snoc_other (fun he => by cases he) (fun _ he => by cases he) s.log).trans hwaits
      · cases hws
        trivial
    | streamFailed =>
      cases hstep
      refine ⟨fun ms hms => ?_, fun hrun => ?_, fun ws hws => (by cases hws), htries fun _ _ he => by cases he⟩
      · rcases hms with hms | hms <;> cases hms
        exact ⟨0, (waits_snoc_other (fun he => by cases he) (fun _ he => by cases he) s.log).trans hwaits, rfl⟩
      · rcases hrun with hrun | hrun <;> cases hrun
    | _ => cases hstep
  | running ws =>
    rw [hs] at hidle
    cases hidle
  | waiting ms =>
    obtain ⟨k, hwaits, rfl⟩ := h.waiting ms (Or.inr hs)
    rw [hs] at hstep
    cases e with
    | slept ms =>
      simp only [Supervisor.step] at hstep
      split at hstep
      · rename_i hms
        cases hstep
        refine ⟨fun ms' hms' => ?_, fun hrun => ?_, fun ws hws => (by cases hws), htries fun _ _ he => by cases he⟩
        · rcases hms' with hms' | hms' <;> cases hms'
          refine ⟨k + 1, ?_, rfl⟩
          rw [waits_snoc_slept, hwaits, hms, List.range_succ, List.map_append]
          rfl
        · rcases hrun with hrun | hrun <;> cases hrun
      · cases hstep
    | _ => cases hstep

theorem logOk_of_reach (h : Supervised.Reach Γ w s) : LogOk s := by
  induction h with
  | init => exact logOk_init w
  | @step s s' a _ hact ih =>
    cases a with
    | control e =>
      obtain ⟨next, hall, hstep, -, -, rfl⟩ := control_cases hact
      cases hs : s.supervisor with
      | running ws =>
        rw [hs] at hstep
        obtain ⟨wk, we, rfl, hnext⟩ := running_cases hstep
        exact ih.worker hs hnext
      | _ => exact ih.idle (by rw [hs]; rfl) hstep
    | handlers a =>
      obtain ⟨hall, -, -, rfl⟩ := handlers_cases hact
      exact ⟨ih.waiting, ih.connected, ih.tried, ih.tries⟩

/-- The waits of the supervisor, one by one. -/
theorem reconnectMs_eq (k : Nat) : reconnectMs k = [500, 1000, 2000, 4000, 8000, 16000].getD k 30000 := by
  have hlate : ∀ n, reconnectMs (n + 6) = 30000 := by
    intro n
    induction n with
    | zero => rfl
    | succ n ih =>
      show min (reconnectMs (n + 6) * 2) 30000 = 30000
      rw [ih]
      rfl
  match k with
  | 0 | 1 | 2 | 3 | 4 | 5 => rfl
  | n + 6 => exact hlate n

/-- A step that ends a session is one of the supervisor, at an error of a worker. -/
theorem reconnect_cases {a : Supervised.Action} (hact : s.act Γ a = some s')
    (hend : s'.hall.pool.log = s.hall.pool.log ++ [.env .reconnect]) :
    ∃ ws wk we, s.supervisor = .running ws ∧ a = .control (.worker wk we) ∧ (ws wk).step we = some (.error ()) ∧
      s'.log = s.log ++ [.worker wk we] := by
  have hlonger : ∀ l : BridgeLabel, s.hall.pool.log ≠ s.hall.pool.log ++ [l] := fun l hsame => by
    simpa using congrArg List.length hsame
  cases a with
  | control e =>
    obtain ⟨next, hall, hstep, -, hafter, rfl⟩ := control_cases hact
    rcases hallAfter_cases hafter with ⟨hrun, hstop, -⟩ | ⟨-, rfl⟩
    · cases hs : s.supervisor with
      | running ws =>
        rw [hs] at hstep
        obtain ⟨wk, we, rfl, ⟨c, -, rfl⟩ | ⟨herror, -⟩⟩ := running_cases hstep
        · cases hstop
        · exact ⟨ws, wk, we, rfl, rfl, herror, rfl⟩
      | _ =>
        rw [hs] at hrun
        cases hrun
    · exact (hlonger _ hend).elim
  | handlers a =>
    obtain ⟨hall, hpermits, hhall, rfl⟩ := handlers_cases hact
    have hlast : ∀ {l : BridgeLabel} {q : BridgePool}, Pool.Step (bridge Γ) s.hall.pool l q → q.log = hall.pool.log →
        l = .env .reconnect := by
      intro l q hs hq
      have hlog := hs.log_eq.symm.trans (hq.trans hend)
      exact List.singleton_inj.mp (List.append_cancel_left hlog)
    cases a with
    | spawn wk t d =>
      simp only [Hall.act] at hhall
      split at hhall
      · obtain ⟨out, hout, rfl⟩ := Option.map_eq_some_iff.mp hhall
        have hl := hlast (Pool.step_of_act hout) rfl
        simp only [Pool.act] at hout
        split at hout <;> cases hout
        cases hl
      · cases hhall
    | call t answer =>
      obtain ⟨out, hout, rfl⟩ := Option.map_eq_some_iff.mp hhall
      have hl := hlast (Pool.step_of_act hout) rfl
      simp only [Pool.act] at hout
      split at hout
      · obtain ⟨r, -, rfl⟩ := Option.map_eq_some_iff.mp hout
        cases hl
      · cases hout
    | retire wk t =>
      simp only [Hall.act] at hhall
      split at hhall
      · cases hhall
        exact (hlonger _ hend).elim
      · cases hhall
    | env m =>
      obtain ⟨out, hout, rfl⟩ := Option.map_eq_some_iff.mp hhall
      have hl := hlast (Pool.step_of_act hout) rfl
      obtain ⟨world, -, rfl⟩ := Option.map_eq_some_iff.mp hout
      cases hl
      cases hpermits

/-- When the workers stop, the session ends. -/
theorem log_of_stop {a : Supervised.Action} (hact : s.act Γ a = some s') (hrun : s.supervisor.isRunning = true)
    (hstop : s'.supervisor.isRunning = false) : s'.hall.pool.log = s.hall.pool.log ++ [.env .reconnect] := by
  cases a with
  | control e =>
    obtain ⟨next, hall, -, -, hafter, rfl⟩ := control_cases hact
    rcases hallAfter_cases hafter with ⟨-, -, hcut⟩ | ⟨hgo, -⟩
    · exact Hall.log_of_env hcut
    · rw [hgo hrun] at hstop
      cases hstop
  | handlers a =>
    obtain ⟨hall, -, -, rfl⟩ := handlers_cases hact
    rw [hrun] at hstop
    cases hstop

/-! ## Runs -/

/-- Run a list of steps asked for. -/
def exec (Γ : Ctx) (s : Supervised) : List Supervised.Action → Option Supervised
  | [] => some s
  | a :: as =>
    match s.act Γ a with
    | some s' => exec Γ s' as
    | none => none

theorem reach_of_exec {as : List Supervised.Action} : ∀ {s s' : Supervised}, Supervised.Reach Γ w s → exec Γ s as = some s' →
    Supervised.Reach Γ w s' := by
  induction as with
  | nil =>
    intro s s' hs h
    cases h
    exact hs
  | cons a as ih =>
    intro s s' hs h
    simp only [exec] at h
    split at h
    · rename_i next hnext
      exact ih (.step hs hnext) h
    · cases h

/-- A run that computes, with what a test says of where it ends. -/
theorem exists_reach_of_exec {as : List Supervised.Action} {test : Supervised → Bool}
    (h : (exec Γ (.init w) as).any test = true) : ∃ s, Supervised.Reach Γ w s ∧ test s = true := by
  cases he : exec Γ (.init w) as with
  | none =>
    rw [he] at h
    cases h
  | some s =>
    rw [he] at h
    exact ⟨s, reach_of_exec .init he, h⟩

open SampleAux in
/-- The first connection fails, the second succeeds, and the mint worker takes a mint. -/
def mintScript : List Supervised.Action :=
  [.control .connectFailed, .control (.slept 500), .control .connected, .control .streamReady,
    .control (.worker .mint .ready), .control (.worker .mint .opened), .control (.worker .fast .ready),
    .handlers (.spawn .mint 0 (.mint (.ok signedMint)))]

open SampleAux in
/-- The fast worker takes a submit beside it. -/
def bothScript : List Supervised.Action :=
  mintScript ++ [.control (.worker .fast .opened), .handlers (.spawn .fast 1 (.submit (.ok (submitOf datedTx "c" "k"))))]

/-- The fast worker fails to open its messages four times. -/
def failingScript : List Supervised.Action :=
  mintScript ++ (allAttempts.take 8).map fun e => .control (.worker .fast e)

end SupervisorAux

open SupervisorAux in
/-- In every run under the supervisor the handlers are those of a run of the bridge. At any time no more than 8 handlers of mints
and no more than 32 handlers of other messages run, each at a worker that takes its message and whose stream is open. -/
theorem workers_bounded {Γ : Ctx} {w : Session} {s : Supervised} (h : Supervised.Reach Γ w s) :
    Pool.Reach (bridge Γ) (fun _ _ _ => True) (Pool.init w) s.hall.pool ∧
      (∀ ts : List Nat, ts.Nodup → (∀ t ∈ ts, ∃ d, s.hall.pool.Running t d ∧ d.subject = "chain.tx.mint") → ts.length ≤ 8) ∧
      (∀ ts : List Nat, ts.Nodup → (∀ t ∈ ts, ∃ d, s.hall.pool.Running t d ∧ d.subject ≠ "chain.tx.mint") →
        ts.length ≤ 32) ∧
      ∀ t d, s.hall.pool.Running t d → ∃ ws wk ended, s.supervisor = .running ws ∧ ws wk = .streaming ended ∧
        workers.takes wk d = true := by
  have hok := handlersOk_of_reach h
  refine ⟨hok.pool, fun ts hts hrun => ?_, fun ts hts hrun => ?_, fun t d hrun => ?_⟩
  · refine hok.hall.running_le (l := .mint) hts fun t ht => ?_
    obtain ⟨d, hr, hd⟩ := hrun t ht
    refine ⟨d, hr, fun wk htakes => ?_⟩
    have hmint : workers.takes .mint d = true := List.contains_iff_mem.mpr (hd ▸ List.mem_singleton_self _)
    exact takes_unique hmint htakes
  · refine hok.hall.running_le (l := .fast) hts fun t ht => ?_
    obtain ⟨d, hr, hd⟩ := hrun t ht
    refine ⟨d, hr, fun wk htakes => ?_⟩
    cases wk with
    | fast => rfl
    | mint => exact (hd (List.mem_singleton.mp (List.contains_iff_mem.mp htakes))).elim
  · obtain ⟨wk, hin, htakes⟩ := hok.hall.running t d hrun
    obtain ⟨ws, ended, hws, hwk⟩ := hok.streaming wk t hin
    exact ⟨ws, wk, ended, hws, hwk, htakes⟩

open SupervisorAux SampleAux in
/-- A mint and a submit that run side by side are handlers of the bridge. -/
theorem workers_bounded_both : ∃ s, Supervised.Reach (ctx [datedTx]) (.fresh 1000 none) s ∧ s.hall.inFlight .mint = [0] ∧
    s.hall.inFlight .fast = [1] ∧
    Pool.Reach (bridge (ctx [datedTx])) (fun _ _ _ => True) (Pool.init (.fresh 1000 none)) s.hall.pool := by
  have hrun : (exec (ctx [datedTx]) (.init (.fresh 1000 none)) bothScript).any (fun s =>
      decide (s.hall.inFlight .mint = [0]) && decide (s.hall.inFlight .fast = [1])) = true := by
    decide +kernel
  obtain ⟨s, hs, htest⟩ := exists_reach_of_exec hrun
  rw [Bool.and_eq_true] at htest
  exact ⟨s, hs, of_decide_eq_true htest.1, of_decide_eq_true htest.2, (workers_bounded hs).1⟩

open SupervisorAux in
/-- A session ends, and its handlers are dropped, only at an error of one of the two workers: it could not fetch its stream or
consumer, or it failed to open its messages five times in a row, having waited 100, 200, 400 and 800 ms in between. No handler of
that worker was running then. -/
theorem sessions_end_for_cause {Γ : Ctx} {w : Session} {s s' : Supervised} {a : Supervised.Action}
    (h : Supervised.Reach Γ w s) (hact : s.act Γ a = some s')
    (hend : s'.hall.pool.log = s.hall.pool.log ++ [.env .reconnect]) :
    ∃ wk we, a = .control (.worker wk we) ∧ (we = .unready ∨ we = .openFailed ∧ attempts wk s'.log = allAttempts) ∧
      ∀ t d, workers.takes wk d = true → ¬s.hall.pool.Running t d := by
  obtain ⟨ws, wk, we, hws, rfl, herror, hlog⟩ := reconnect_cases hact hend
  obtain ⟨hclosed, hcause⟩ := tried_error ((logOk_of_reach h).tried ws hws wk) herror
  refine ⟨wk, we, rfl, ?_, fun t d hd => (handlersOk_of_reach h).not_running hws hclosed t hd⟩
  rw [hlog, attempts_snoc_self]
  exact hcause

open SupervisorAux SampleAux in
/-- The fast worker gives up at its fifth failure while a mint is in flight, and the session ends. -/
theorem sessions_end_for_cause_fast : ∃ s s' a, Supervised.Reach (ctx [datedTx]) (.fresh 1000 none) s ∧
    s.hall.inFlight .mint = [0] ∧ s.act (ctx [datedTx]) a = some s' ∧
    s'.hall.pool.log = s.hall.pool.log ++ [.env .reconnect] ∧ ∃ wk we, a = .control (.worker wk we) ∧
      (we = .unready ∨ we = .openFailed ∧ attempts wk s'.log = allAttempts) ∧
      ∀ t d, workers.takes wk d = true → ¬s.hall.pool.Running t d := by
  have hrun : (exec (ctx [datedTx]) (.init (.fresh 1000 none)) failingScript).any (fun s =>
      decide (s.hall.inFlight .mint = [0]) && (s.supervisor.isRunning &&
        (s.act (ctx [datedTx]) (.control (.worker .fast .openFailed))).any fun s' => !s'.supervisor.isRunning)) = true := by
    decide +kernel
  obtain ⟨s, hs, htest⟩ := exists_reach_of_exec hrun
  rw [Bool.and_eq_true, Bool.and_eq_true] at htest
  obtain ⟨hmint, hrunning, hnext⟩ := htest
  obtain ⟨s', hact, hstop⟩ := (Option.any_eq_true ..).mp hnext
  have hend := log_of_stop hact hrunning (by simpa using hstop)
  exact ⟨s, s', _, hs, of_decide_eq_true hmint, hact, hend, sessions_end_for_cause hs hact hend⟩

open SupervisorAux in
/-- In every run the supervisor has waited 500, 1000, 2000, 4000, 8000, 16000 and then 30000 ms, again and again, since it was last
connected, and each worker is somewhere in its five attempts: its cap of 5000 ms is never reached. -/
theorem retries_back_off {Γ : Ctx} {w : Session} {s : Supervised} (h : Supervised.Reach Γ w s) :
    (∃ k, waits s.log = (List.range k).map fun j => [500, 1000, 2000, 4000, 8000, 16000].getD j 30000) ∧
      ∀ wk, attempts wk s.log <+: allAttempts := by
  have hok := logOk_of_reach h
  refine ⟨?_, hok.tries⟩
  have heq : reconnectMs = fun j => [500, 1000, 2000, 4000, 8000, 16000].getD j 30000 := funext reconnectMs_eq
  rw [← heq]
  cases hs : s.supervisor with
  | connecting ms =>
    obtain ⟨k, hk, -⟩ := hok.waiting ms (Or.inl hs)
    exact ⟨k, hk⟩
  | starting => exact ⟨0, hok.connected (Or.inl hs)⟩
  | running ws => exact ⟨0, hok.connected (Or.inr (by rw [hs]; rfl))⟩
  | waiting ms =>
    obtain ⟨k, hk, -⟩ := hok.waiting ms (Or.inr hs)
    exact ⟨k, hk⟩

open SupervisorAux SampleAux in
/-- A worker that has failed four times in a row is four attempts into its five. -/
theorem retries_back_off_failing : ∃ s, Supervised.Reach (ctx [datedTx]) (.fresh 1000 none) s ∧
    attempts .fast s.log = allAttempts.take 8 ∧
    (∃ k, waits s.log = (List.range k).map fun j => [500, 1000, 2000, 4000, 8000, 16000].getD j 30000) ∧
      ∀ wk, attempts wk s.log <+: allAttempts := by
  have hrun : (exec (ctx [datedTx]) (.init (.fresh 1000 none)) failingScript).any (fun s =>
      decide (attempts .fast s.log = allAttempts.take 8)) = true := by
    decide +kernel
  obtain ⟨s, hs, htest⟩ := exists_reach_of_exec hrun
  exact ⟨s, hs, of_decide_eq_true htest, retries_back_off hs⟩

end ChainBridge
