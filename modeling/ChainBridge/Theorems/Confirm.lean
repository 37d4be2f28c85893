import ChainBridge.Lemmas.Handlers
import ChainBridge.Lemmas.Polls
import ChainBridge.Lemmas.Sample
import ChainBridge.Reads

/-!
# A mint is reported at the commitment level of its status

The poll behind a mint ends with the first status that has an error or a slot; it never reads the commitment level. So the report
of a success is backed by a status at `confirmed` or `finalized` exactly when that first status, if it has no error, is at one of
these levels.
-/

namespace ChainBridge

open Interleave

/-- The status has no error, this slot, and a commitment level of `confirmed` or `finalized`. -/
def ConfirmedAt (v : Json) (slot : Nat) : Prop :=
  (v.field "err").isNull = true ∧ (v.field "slot").asU64 = some slot ∧
    ((v.field "confirmationStatus").asStr = some "confirmed" ∨ (v.field "confirmationStatus").asStr = some "finalized")

/-- A poll for the signature was answered with the status. -/
def Polled (t : List CallEvent) (sig : Signature) (v : Json) : Prop :=
  ∃ rest, (⟨.getSignatureStatuses sig, .ok (some v :: rest)⟩ : CallEvent) ∈ t

/-- The success with this signature text and slot is backed by a confirmed status. -/
def Backed (Γ : Ctx) (t : List CallEvent) (signature : Option String) (slot : Nat) : Prop :=
  ∃ sig v, signature = some (Γ.signatureToString sig) ∧ Polled t sig v ∧ ConfirmedAt v slot

/-- The signature text and the slot of a success that a mint reports as its own, or records as done. -/
def reportedSuccess : Call → Option (Option String × Nat)
  | .publish _ (.mint r) => if r.success && !r.deduplicated then some (r.signature, r.slot) else none
  | .dedupInsert _ { state := .done signature slot, .. } => some (signature, slot)
  | _ => none

/-- Every success a mint reports as its own or records as done is backed by a confirmed status. -/
def ReportsConfirmed (Γ : Ctx) (t : List CallEvent) : Prop :=
  ∀ e ∈ t, ∀ out, reportedSuccess e.1 = some out → Backed Γ t out.1 out.2

/-- The answer to a poll. -/
def pollAnswer : CallEvent → Option (Except String (List (Option Json)))
  | ⟨.getSignatureStatuses _, answer⟩ => some answer
  | _ => none

/-- The status that ends the polling: the first entry, when it has an error or a slot. -/
def decisive : Except String (List (Option Json)) → Option Json
  | .ok (some v :: _) => if (v.field "err").isNull && (v.field "slot").asU64.isNone then none else some v
  | _ => none

/-- The first status among the answers to the polls that has an error or a slot is at `confirmed` or `finalized`, unless it has an
error. -/
def DecidedConfirmed (t : List CallEvent) : Prop :=
  ∀ v, (t.filterMap pollAnswer).findSome? decisive = some v → (v.field "err").isNull = true →
    (v.field "confirmationStatus").asStr = some "confirmed" ∨ (v.field "confirmationStatus").asStr = some "finalized"

namespace ConfirmAux

open HandlersAux

variable {Γ : Ctx} {t : List CallEvent} {sig : Signature}

/-! ## The polling -/

/-- What a status that ends the polling decides. -/
def verdictOf (v : Json) : ConfirmOutcome :=
  if (v.field "err").isNull then .confirmed ((v.field "slot").asU64.getD 0) else .errored

/-- A poll decides exactly by a decisive status. -/
theorem pollVerdict_eq (answer : Except String (List (Option Json))) : pollVerdict answer = (decisive answer).map verdictOf := by
  rcases answer with e | _ | ⟨_ | v, rest⟩
  · rfl
  · rfl
  · rfl
  · rw [pollVerdict_status]
    simp only [decisive]
    cases herr : (v.field "err").isNull <;> cases hslot : (v.field "slot").asU64 <;> simp [verdictOf, herr, hslot]

/-- A status that decides is the first entry of its answer. -/
theorem eq_of_decisive {answer : Except String (List (Option Json))} {v : Json} (h : decisive answer = some v) :
    ∃ rest, answer = .ok (some v :: rest) := by
  rcases answer with e | _ | ⟨_ | v', rest⟩
  · cases h
  · cases h
  · cases h
  · simp only [decisive] at h
    split at h
    · cases h
    · cases h
      exact ⟨rest, rfl⟩

/-- A confirmed status decides. -/
theorem decisive_of_confirmedAt {v : Json} {slot : Nat} (h : ConfirmedAt v slot) (rest : List (Option Json)) :
    decisive (.ok (some v :: rest)) = some v := by
  simp [decisive, h.2.1]

/-- What a finished polling says: it asked for one signature only, the first decisive status is the only one, and the verdict is
what that status decides. -/
structure PollSpec (sig : Signature) (t : List CallEvent) (verdict : ConfirmOutcome) : Prop where
  asked : ∀ sig' v, Polled t sig' v → sig' = sig
  first : ∀ v, Polled t sig v → (∃ rest, decisive (.ok (some v :: rest)) = some v) →
    (t.filterMap pollAnswer).findSome? decisive = some v
  polled : ∀ v, (t.filterMap pollAnswer).findSome? decisive = some v → Polled t sig v
  verdict : verdict = (((t.filterMap pollAnswer).findSome? decisive).map verdictOf).getD .pending

theorem filterMap_pollsOf (answers : List (Except String (List (Option Json)))) :
    (pollsOf sig answers).filterMap pollAnswer = answers := by
  rw [pollsOf, List.filterMap_map]
  exact List.filterMap_some

theorem polled_pollsOf_iff {answers : List (Except String (List (Option Json)))} {sig' : Signature} {v : Json} :
    Polled (pollsOf sig answers) sig' v ↔ sig' = sig ∧ ∃ rest, .ok (some v :: rest) ∈ answers := by
  constructor
  · rintro ⟨rest, hmem⟩
    obtain ⟨answer, hanswer, heq⟩ := List.mem_map.mp hmem
    cases heq
    exact ⟨rfl, rest, hanswer⟩
  · rintro ⟨rfl, rest, hmem⟩
    exact ⟨rest, List.mem_map_of_mem hmem⟩

/-- An answer with no decisive status decides nothing. -/
theorem decisive_of_indecisive {answer : Except String (List (Option Json))} (h : Indecisive answer) : decisive answer = none := by
  have hnone := PollsAux.indecisive_iff.mp h
  rw [pollVerdict_eq] at hnone
  exact Option.map_eq_none_iff.mp hnone

/-- No decisive status is among answers that decide nothing. -/
theorem not_decisive_of_mem {answers : List (Except String (List (Option Json)))} (h : ∀ a ∈ answers, Indecisive a) {v : Json}
    {rest : List (Option Json)} (hmem : .ok (some v :: rest) ∈ answers) (rest' : List (Option Json)) :
    decisive (.ok (some v :: rest')) ≠ some v := by
  have hnone := decisive_of_indecisive (h _ hmem)
  simp only [decisive] at hnone ⊢
  rw [hnone]
  exact (Option.some_ne_none v).symm

theorem exec_resolveConfirmationBounded {n : Nat} {verdict : ConfirmOutcome}
    (h : Prog.Exec (resolveConfirmationBounded sig n) t verdict) : PollSpec sig t verdict := by
  cases PollsAux.exec_resolveConfirmationBounded_iff.mp h with
  | @decided before answer _ _ hbefore hlast =>
    have hverdict := PollsAux.pollVerdict_eq_some_iff.mpr hlast
    rw [pollVerdict_eq] at hverdict
    obtain ⟨v, hv, rfl⟩ := Option.map_eq_some_iff.mp hverdict
    obtain ⟨rest, rfl⟩ := eq_of_decisive hv
    have hfirst : ((pollsOf sig (before ++ [.ok (some v :: rest)])).filterMap pollAnswer).findSome? decisive = some v := by
      rw [filterMap_pollsOf, List.findSome?_append, List.findSome?_eq_none_iff.mpr fun a ha => decisive_of_indecisive (hbefore a ha),
        Option.none_or, List.findSome?_singleton]
      exact hv
    refine ⟨fun sig' v' hpolled => (polled_pollsOf_iff.mp hpolled).1, fun v' hpolled hdecides => ?_, fun v' hv' => ?_, ?_⟩
    · obtain ⟨-, rest', hmem⟩ := polled_pollsOf_iff.mp hpolled
      obtain ⟨rest'', hdecides⟩ := hdecides
      rcases List.mem_append.mp hmem with hmem | hmem
      · exact (not_decisive_of_mem hbefore hmem rest'' hdecides).elim
      · cases List.mem_singleton.mp hmem
        exact hfirst
    · rw [hfirst] at hv'
      cases hv'
      exact polled_pollsOf_iff.mpr ⟨rfl, rest, List.mem_append_right _ List.mem_cons_self⟩
    · rw [hfirst]
      rfl
  | exhausted answers hlength hall =>
    have hnone : ((pollsOf sig answers).filterMap pollAnswer).findSome? decisive = none := by
      rw [filterMap_pollsOf]
      exact List.findSome?_eq_none_iff.mpr fun a ha => decisive_of_indecisive (hall a ha)
    refine ⟨fun sig' v hpolled => (polled_pollsOf_iff.mp hpolled).1, fun v hpolled hdecides => ?_, fun v hv => ?_, ?_⟩
    · obtain ⟨-, rest, hmem⟩ := polled_pollsOf_iff.mp hpolled
      obtain ⟨rest', hdecides⟩ := hdecides
      exact (not_decisive_of_mem hall hmem rest' hdecides).elim
    · rw [hnone] at hv
      cases hv
    · rw [hnone]
      rfl

/-- Calls around the polling that are no polls change nothing of this. -/
theorem PollSpec.frame {verdict : ConfirmOutcome} (h : PollSpec sig t verdict) {t₁ t₂ : List CallEvent}
    (h₁ : ∀ e ∈ t₁, pollAnswer e = none) (h₂ : ∀ e ∈ t₂, pollAnswer e = none) : PollSpec sig (t₁ ++ t ++ t₂) verdict := by
  have hpolls : (t₁ ++ t ++ t₂).filterMap pollAnswer = t.filterMap pollAnswer := by
    rw [List.filterMap_append, List.filterMap_append, List.filterMap_eq_nil_iff.mpr h₁, List.filterMap_eq_nil_iff.mpr h₂,
      List.nil_append, List.append_nil]
  have hpolled : ∀ sig' v, Polled (t₁ ++ t ++ t₂) sig' v → Polled t sig' v := by
    rintro sig' v ⟨rest, hmem⟩
    rw [List.mem_append, List.mem_append] at hmem
    rcases hmem with (hmem | hmem) | hmem
    · cases h₁ _ hmem
    · exact ⟨rest, hmem⟩
    · cases h₂ _ hmem
  refine ⟨fun sig' v hv => h.asked sig' v (hpolled sig' v hv), fun v hv hdec => ?_, fun v hv => ?_, ?_⟩
  · rw [hpolls]
    exact h.first v (hpolled sig v hv) hdec
  · rw [hpolls] at hv
    obtain ⟨rest, hmem⟩ := h.polled v hv
    exact ⟨rest, List.mem_append_left _ (List.mem_append_right _ hmem)⟩
  · rw [hpolls]
    exact h.verdict

/-- The first decisive status has a slot where it has no error. -/
theorem slot_of_decided {v : Json} (h : (t.filterMap pollAnswer).findSome? decisive = some v)
    (herr : (v.field "err").isNull = true) : ∃ slot, (v.field "slot").asU64 = some slot := by
  obtain ⟨answer, -, hdec⟩ := List.exists_of_findSome?_eq_some h
  obtain ⟨rest, rfl⟩ := eq_of_decisive hdec
  cases hslot : (v.field "slot").asU64 with
  | none => simp [decisive, herr, hslot] at hdec
  | some slot => exact ⟨slot, rfl⟩

/-- A polling that ends with a success is backed by a confirmed status exactly when the status that ended it is confirmed. -/
theorem PollSpec.confirmed_iff {verdict : ConfirmOutcome} (h : PollSpec sig t verdict) :
    (∀ slot, verdict = .confirmed slot → ∃ v, Polled t sig v ∧ ConfirmedAt v slot) ↔ DecidedConfirmed t := by
  constructor
  · intro hbacked v hv herr
    obtain ⟨slot, hslot⟩ := slot_of_decided hv herr
    have hverdict : verdict = .confirmed slot := by
      rw [h.verdict, hv]
      simp [verdictOf, herr, hslot]
    obtain ⟨v', hpolled, hconf⟩ := hbacked slot hverdict
    have hfirst := h.first v' hpolled ⟨[], decisive_of_confirmedAt hconf []⟩
    rw [hv] at hfirst
    cases hfirst
    exact hconf.2.2
  · rintro hdecided slot hverdict
    rw [h.verdict] at hverdict
    cases hv : (t.filterMap pollAnswer).findSome? decisive with
    | none =>
      rw [hv] at hverdict
      cases hverdict
    | some v =>
      have hout : verdictOf v = .confirmed slot := by simpa [hv] using hverdict
      cases herr : (v.field "err").isNull with
      | false => simp [verdictOf, herr] at hout
      | true =>
        obtain ⟨slot', hslot⟩ := slot_of_decided hv herr
        have hss : slot' = slot := by simpa [verdictOf, herr, hslot] using hout
        exact ⟨v, h.polled v hv, herr, by rw [hslot, hss], hdecided v hv herr⟩

/-! ## The mint -/

theorem pollAnswer_of_signing {e : CallEvent} (h : e.1.isSigning = true) : pollAnswer e = none := by
  obtain ⟨c, a⟩ := e
  cases c <;> first | rfl | cases h

/-- A trace with no poll decides nothing. -/
theorem decidedConfirmed_of_no_poll (h : ∀ e ∈ t, pollAnswer e = none) : DecidedConfirmed t := by
  intro v hv
  rw [List.filterMap_eq_nil_iff.mpr h] at hv
  cases hv

/-- A mint that returns, by its polling: it failed without a poll, or the polls are those for its signature and it reports what
they decide. -/
theorem exec_polls {recipientWallet : String} {energyKwh : UInt64} {meterId : Vector UInt8 16}
    {windowStartMs : Int64} {identity : SpiffeIdentity} {correlationId : String} {r : Except String (Signature × Nat)}
    (h : Prog.Exec (buildAndSubmitGenerationMint Γ recipientWallet energyKwh meterId windowStartMs identity correlationId) t r) :
    ((∀ e ∈ t, pollAnswer e = none) ∧ ∃ e, r = .error e) ∨
      ∃ sig verdict, PollSpec sig t verdict ∧ r = mintOutcome Γ sig verdict := by
  rcases exec_buildAndSubmitGenerationMint h with ⟨hunpolled, hr⟩ | ⟨payer, serialized, sig, n, t₁, t₂, verdict, rfl, hsign, hpoll, hr⟩
  · refine Or.inl ⟨fun e he => ?_, hr⟩
    rcases hunpolled.calls e he with hsigning | hkey
    · exact pollAnswer_of_signing hsigning
    · obtain ⟨c, a⟩ := e
      cases hkey
      rfl
  · have hsigning := (Prog.only_steps (signing_signAndSubmit ..) hsign).1
    have hbefore : ∀ e ∈ (⟨.getPublicKey Γ.transitKeyName, .ok payer⟩ : CallEvent) :: t₁, pollAnswer e = none :=
      List.forall_mem_cons.mpr ⟨rfl, fun e he => pollAnswer_of_signing (hsigning e he)⟩
    have hafter : ∀ e ∈ ([] : List CallEvent), pollAnswer e = none := fun e he => by cases he
    have hspec := (exec_resolveConfirmationBounded hpoll).frame hbefore hafter
    rw [List.append_nil] at hspec
    exact Or.inr ⟨sig, verdict, hspec, hr⟩

/-! ## The handler -/

/-- A call that is no poll and reports no success. -/
def Unreported (c : Call) : Prop := (∀ a, pollAnswer ⟨c, a⟩ = none) ∧ reportedSuccess c = none

/-- A call that is no poll and reports at most the success with this signature text and slot. -/
def ReportsOnly (out : Option String × Nat) (c : Call) : Prop :=
  (∀ a, pollAnswer ⟨c, a⟩ = none) ∧ ∀ out', reportedSuccess c = some out' → out' = out

theorem unreported_of_gate {c : Call} (h : c.isGate = true) : Unreported c := by
  cases c with
  | publish subject reply =>
    refine ⟨fun _ => rfl, ?_⟩
    cases reply with
    | mint r =>
      have hfails : r.success = false := by
        simp only [Call.isGate, Reply.refuses, Bool.and_eq_true, Bool.not_eq_true'] at h
        exact h.1
      simp [reportedSuccess, hfails]
    | _ => rfl
  | _ => first | exact ⟨fun _ => rfl, rfl⟩ | cases h

theorem reportedSuccess_of_work {c : Call} (h : c.isWork = true) : reportedSuccess c = none := by
  cases c <;> first | rfl | cases h

theorem unreported_failure (envelope : MintEnergyMessage) (key : Option String) (nowMs : Nat) (e : String) :
    (mintFinish Γ envelope key nowMs (.error e)).Only Unreported (fun _ => True) := by
  have hpublish : Unreported (.publish envelope.replySubject (.mint (.failure envelope.correlationId e))) :=
    ⟨fun _ => rfl, rfl⟩
  cases key with
  | none => exact ⟨hpublish, fun _ => ⟨⟨fun _ => rfl, rfl⟩, fun _ => trivial⟩⟩
  | some key => exact ⟨⟨fun _ => rfl, rfl⟩, fun _ => ⟨hpublish, fun _ => ⟨⟨fun _ => rfl, rfl⟩, fun _ => trivial⟩⟩⟩

theorem reportsOnly_success (envelope : MintEnergyMessage) (key : Option String) (nowMs : Nat) (sig : Signature) (slot : Nat) :
    (mintFinish Γ envelope key nowMs (.ok (sig, slot))).Only
      (ReportsOnly (some (Γ.signatureToString sig), slot)) (fun _ => True) := by
  have hquiet : ∀ c, Unreported c → ReportsOnly (some (Γ.signatureToString sig), slot) c :=
    fun c hc => ⟨hc.1, fun out' h => by rw [hc.2] at h; cases h⟩
  have hreport : ∀ c, (∀ a, pollAnswer ⟨c, a⟩ = none) → reportedSuccess c = some (some (Γ.signatureToString sig), slot) →
      ReportsOnly (some (Γ.signatureToString sig), slot) c :=
    fun c hc hr => ⟨hc, fun out' h => by rw [hr] at h; cases h; rfl⟩
  have hack : ReportsOnly (some (Γ.signatureToString sig), slot) (.ack .ack) := hquiet _ ⟨fun _ => rfl, rfl⟩
  refine ⟨hquiet _ ⟨fun _ => rfl, rfl⟩, fun _ => ?_⟩
  cases key with
  | none => exact ⟨hreport _ (fun _ => rfl) rfl, fun _ => ⟨hack, fun _ => trivial⟩⟩
  | some key =>
    exact ⟨hreport _ (fun _ => rfl) rfl, fun _ => ⟨hreport _ (fun _ => rfl) rfl, fun _ => ⟨hack, fun _ => trivial⟩⟩⟩

/-- A mint that has finished after a success has reported it. -/
theorem exec_success_reports {envelope : MintEnergyMessage} {key : Option String} {nowMs : Nat} {slot : Nat}
    (h : Prog.Exec (mintFinish Γ envelope key nowMs (.ok (sig, slot))) t ()) :
    ∃ e ∈ t, reportedSuccess e.1 = some (some (Γ.signatureToString sig), slot) := by
  obtain ⟨_, t₁, rfl, h₁⟩ := Prog.exec_perform.mp h
  cases key with
  | none =>
    obtain ⟨_, t₂, rfl, -⟩ := Prog.exec_perform.mp h₁
    exact ⟨_, List.mem_cons_of_mem _ List.mem_cons_self, rfl⟩
  | some key =>
    obtain ⟨_, t₂, rfl, -⟩ := Prog.exec_call.mp h₁
    exact ⟨_, List.mem_cons_of_mem _ List.mem_cons_self, rfl⟩

/-- A mint that has not come to its end has calls to make. -/
theorem bind_mintFinish_ne_ret {envelope : MintEnergyMessage} {key : Option String} {nowMs : Nat}
    {p : Handler (Except String (Signature × Nat))} : (p >>= mintFinish Γ envelope key nowMs) ≠ .ret () := by
  intro h
  cases p with
  | call i k => cases h
  | ret r =>
    cases r with
    | ok out => cases h
    | error e => cases key <;> cases h

/-- What a partial execution of a mint reports: nothing, and then its polls decide no unconfirmed success if it has finished; or
one success, which its polls end with and which it has reported if it has finished. -/
def MintReports (Γ : Ctx) (t : List CallEvent) (q : Handler Unit) : Prop :=
  ((∀ e ∈ t, reportedSuccess e.1 = none) ∧ (q = .ret () → DecidedConfirmed t)) ∨
  ∃ sig slot, PollSpec sig t (.confirmed slot) ∧
    (∀ e ∈ t, ∀ out, reportedSuccess e.1 = some out → out = (some (Γ.signatureToString sig), slot)) ∧
    (q = .ret () → ∃ e ∈ t, reportedSuccess e.1 = some (some (Γ.signatureToString sig), slot))

theorem reports_of_unreported {q : Handler Unit} (h : ∀ e ∈ t, Unreported e.1) : MintReports Γ t q :=
  Or.inl ⟨fun e he => (h e he).2, fun _ => decidedConfirmed_of_no_poll fun e he => (h e he).1 e.2⟩

/-- A mint whose attempt has returned, behind calls that report nothing and do not poll. -/
theorem reports_of_attempt {envelope : MintEnergyMessage} {key : Option String} {nowMs : Nat} {before t₁ t₂ : List CallEvent}
    {r : Except String (Signature × Nat)} {q : Handler Unit} (hbefore : ∀ e ∈ before, Unreported e.1)
    (hbuild : Prog.Exec (buildAndSubmitGenerationMint Γ envelope.recipientWallet envelope.energyKwh envelope.meterId
      envelope.windowStartMs ⟨envelope.serviceIdentity⟩ envelope.correlationId) t₁ r)
    (hfinish : Prog.Steps (mintFinish Γ envelope key nowMs r) t₂ q) : MintReports Γ (before ++ t₁ ++ t₂) q := by
  have hwork : ∀ e ∈ before ++ t₁, reportedSuccess e.1 = none := by
    have hcalls := (Prog.only_steps (work_buildAndSubmitGenerationMint ..) hbuild).1
    exact List.forall_mem_append.mpr ⟨fun e he => (hbefore e he).2, fun e he => reportedSuccess_of_work (hcalls e he)⟩
  have hpolls : ∀ e ∈ before, pollAnswer e = none := fun e he => (hbefore e he).1 e.2
  rcases exec_polls hbuild with ⟨hnone, e, rfl⟩ | ⟨sig, verdict, hspec, rfl⟩
  · have hfails := (Prog.only_steps (unreported_failure ..) hfinish).1
    refine Or.inl ⟨?_, fun _ => decidedConfirmed_of_no_poll ?_⟩
    · exact List.forall_mem_append.mpr ⟨hwork, fun e he => (hfails e he).2⟩
    · exact List.forall_mem_append.mpr ⟨List.forall_mem_append.mpr ⟨hpolls, hnone⟩, fun e he => (hfails e he).1 e.2⟩
  -- the polls of the handler are those of its mint, whatever they decide
  have hframe : (∀ e ∈ t₂, pollAnswer e = none) → PollSpec sig (before ++ t₁ ++ t₂) verdict := hspec.frame hpolls
  cases verdict with
  | confirmed slot =>
    have hreports := (Prog.only_steps (reportsOnly_success envelope _ nowMs sig slot) hfinish).1
    refine Or.inr ⟨sig, slot, hframe fun e he => (hreports e he).1 e.2, ?_, fun hq => ?_⟩
    · refine List.forall_mem_append.mpr ⟨fun e he out hout => ?_, fun e he => (hreports e he).2⟩
      rw [hwork e he] at hout
      cases hout
    · subst hq
      obtain ⟨e, he, hout⟩ := exec_success_reports hfinish
      exact ⟨e, List.mem_append_right _ he, hout⟩
  | _ =>
    have hfails := (Prog.only_steps (unreported_failure ..) hfinish).1
    refine Or.inl ⟨?_, fun _ => ?_⟩
    · exact List.forall_mem_append.mpr ⟨hwork, fun e he => (hfails e he).2⟩
    · exact (hframe fun e he => (hfails e he).1 e.2).confirmed_iff.mp fun slot hv => (by cases hv)

theorem steps_reports {payload : Except String MintEnergyMessage} {q : Handler Unit}
    (h : Prog.Steps (handleMint Γ payload) t q) : MintReports Γ t q := by
  rcases steps_handleMint h with hgates | ⟨envelope, authMs, nowMs, a, t', -, -, rfl, h'⟩
  · exact reports_of_unreported fun e he => unreported_of_gate (hgates e he)
  have hclaim : ∀ e ∈ claimTrace (dedupKey .mint envelope.idempotencyKey) envelope.correlationId authMs nowMs a,
      Unreported e.1 := by
    intro e he
    simp only [claimTrace, List.mem_cons, List.not_mem_nil, or_false] at he
    rcases he with rfl | rfl | rfl | rfl <;> exact ⟨fun _ => rfl, rfl⟩
  cases a with
  | some prior =>
    have hreplay : (mintClaimed Γ envelope nowMs (some prior)).Only Unreported (fun _ => True) := by
      refine ⟨⟨fun _ => rfl, ?_⟩, fun _ => ⟨⟨fun _ => rfl, rfl⟩, fun _ => trivial⟩⟩
      simp [reportedSuccess, mintReplay]
    exact reports_of_unreported (List.forall_mem_append.mpr ⟨hclaim, (Prog.only_steps hreplay h').1⟩)
  | none =>
    rw [mintClaimed, mintEffect_eq] at h'
    rcases Prog.steps_bind.mp h' with ⟨p', hbuild, rfl⟩ | ⟨t₁, t₂, r, rfl, hbuild, hfinish⟩
    · have hcalls := (Prog.only_steps (work_buildAndSubmitGenerationMint ..) hbuild).1
      refine Or.inl ⟨?_, fun hret => (bind_mintFinish_ne_ret hret).elim⟩
      exact List.forall_mem_append.mpr ⟨fun e he => (hclaim e he).2, fun e he => reportedSuccess_of_work (hcalls e he)⟩
    · rw [← List.append_assoc]
      exact reports_of_attempt hclaim hbuild hfinish

end ConfirmAux

open ConfirmAux HandlersAux in
/-- A mint that returns reports a success backed by a confirmed status, and its handler reports and records one so, exactly when
the first status its polls find with an error or a slot is confirmed, unless it has an error. A handler that has not finished
reports no other success either. -/
theorem mint_confirmed_iff (Γ : Ctx) :
    (∀ recipientWallet energyKwh meterId windowStartMs identity correlationId t r,
      Prog.Exec (buildAndSubmitGenerationMint Γ recipientWallet energyKwh meterId windowStartMs identity correlationId) t r →
      ((∀ sig slot, r = .ok (sig, slot) → ∃ v, Polled t sig v ∧ ConfirmedAt v slot) ↔ DecidedConfirmed t)) ∧
    (∀ payload t, Prog.Exec (handleMint Γ payload) t () → (ReportsConfirmed Γ t ↔ DecidedConfirmed t)) ∧
    ∀ payload t q, Prog.Steps (handleMint Γ payload) t q → DecidedConfirmed t → ReportsConfirmed Γ t := by
  have hreports : ∀ payload t q, Prog.Steps (handleMint Γ payload) t q → DecidedConfirmed t → ReportsConfirmed Γ t := by
    intro payload t q h hdecided e he out hout
    rcases steps_reports h with ⟨hnone, -⟩ | ⟨sig, slot, hspec, honly, -⟩
    · rw [hnone e he] at hout
      cases hout
    · obtain ⟨v, hpolled, hconf⟩ := hspec.confirmed_iff.mpr hdecided slot rfl
      rw [honly e he out hout]
      exact ⟨sig, v, rfl, hpolled, hconf⟩
  refine ⟨?_, fun payload t h => ⟨fun hbacked => ?_, hreports payload t _ h⟩, hreports⟩
  · intro recipientWallet energyKwh meterId windowStartMs identity correlationId t r h
    rcases exec_polls h with ⟨hnone, e, rfl⟩ | ⟨sig, verdict, hspec, rfl⟩
    · exact iff_of_true (fun sig slot hr => (by cases hr)) (decidedConfirmed_of_no_poll hnone)
    · rw [← hspec.confirmed_iff]
      constructor
      · intro hok slot hv
        exact hok sig slot (mintOutcome_eq_ok_iff.mpr ⟨rfl, hv⟩)
      · intro hv sig' slot hr
        obtain ⟨rfl, hverdict⟩ := mintOutcome_eq_ok_iff.mp hr
        exact hv slot hverdict
  · rcases steps_reports h with ⟨-, hdecided⟩ | ⟨sig, slot, hspec, -, hreported⟩
    · exact hdecided rfl
    · obtain ⟨e, he, hout⟩ := hreported rfl
      obtain ⟨sig', v, -, hpolled, hconf⟩ := hbacked e he _ hout
      obtain rfl := hspec.asked sig' v hpolled
      refine hspec.confirmed_iff.mp fun slot' hv => ?_
      cases hv
      exact ⟨v, hpolled, hconf⟩

namespace ConfirmAux

open SampleAux

/-- The signed mint, from its claim to its result. -/
def mintRun : Handler (Except String (Signature × Nat)) :=
  buildAndSubmitGenerationMint mintCtx signedMint.recipientWallet signedMint.energyKwh signedMint.meterId
    signedMint.windowStartMs ⟨signedMint.serviceIdentity⟩ signedMint.correlationId

/-- Every status that was polled is at a level. -/
def polledAt (level : String) : CallEvent → Bool
  | ⟨.getSignatureStatuses _, .ok (some v :: _)⟩ => decide ((v.field "confirmationStatus").asStr = some level)
  | _ => true

theorem level_of_polledAt {t : List CallEvent} {sig : Signature} {level : String} (h : t.all (polledAt level) = true) {v : Json}
    (hv : Polled t sig v) :
    (v.field "confirmationStatus").asStr = some level := by
  obtain ⟨rest, hmem⟩ := hv
  exact of_decide_eq_true (List.all_eq_true.mp h _ hmem)

theorem not_confirmedAt_of_processed {t : List CallEvent} {sig : Signature} (h : t.all (polledAt "processed") = true)
    {v : Json} {slot : Nat} (hv : Polled t sig v) : ¬ConfirmedAt v slot := by
  rintro ⟨-, -, hlevel⟩
  rw [level_of_polledAt h hv] at hlevel
  simp at hlevel

/-- The call reports a success. -/
def reports (e : CallEvent) : Bool := (reportedSuccess e.1).isSome

open SampleAux in
/-- A mint that succeeds when run with its transaction at a level. -/
theorem exec_mintRun_at {level : String} (h : (mintRun.runWith (answerAt 1800000001000 (landedAt level))).any
      (fun out => out.1.all (polledAt level) && decide (out.2.toOption = some (sig, 99))) = true) :
    ∃ t, Prog.Exec mintRun t (.ok (sig, 99)) ∧ t.all (polledAt level) = true := by
  obtain ⟨t, r, hexec, htest⟩ := Prog.exists_exec_of_runWith h
  obtain ⟨hlevel, hr⟩ := Bool.and_eq_true_iff.mp htest
  cases r with
  | error e => cases of_decide_eq_true hr
  | ok out =>
    obtain rfl : out = (sig, 99) := Option.some.inj (of_decide_eq_true hr)
    exact ⟨t, hexec, hlevel⟩

end ConfirmAux

open ConfirmAux SampleAux in
/-- A mint whose transaction is polled at `confirmed` returns a success backed by that status. -/
theorem mintRun_confirmed : ∃ t slot, Prog.Exec mintRun t (.ok (sig, slot)) ∧ ∃ v, Polled t sig v ∧ ConfirmedAt v slot := by
  have hrun : (mintRun.runWith (answerAt 1800000001000 (landedAt "confirmed"))).any
      (fun out => out.1.all (polledAt "confirmed") && decide (out.2.toOption = some (sig, 99))) = true := by decide +kernel
  obtain ⟨t, hexec, hlevel⟩ := exec_mintRun_at hrun
  have hdecided : DecidedConfirmed t := by
    intro v hv _
    rcases exec_polls hexec with ⟨-, e, he⟩ | ⟨sig, verdict, hspec, -⟩
    · cases he
    · exact Or.inl (level_of_polledAt hlevel (hspec.polled v hv))
  exact ⟨t, 99, hexec, ((mint_confirmed_iff mintCtx).1 _ _ _ _ _ _ t _ hexec).mpr hdecided sig 99 rfl⟩

open ConfirmAux SampleAux in
/-- A mint whose transaction is only ever polled at `processed` returns a success, and its handler reports it. -/
theorem mint_success_at_processed :
    (∃ t slot, Prog.Exec mintRun t (.ok (sig, slot)) ∧ ¬∃ v, Polled t sig v ∧ ConfirmedAt v slot) ∧
    ∃ t, Prog.Exec (handleMint mintCtx (.ok signedMint)) t () ∧ ¬ReportsConfirmed mintCtx t := by
  constructor
  · have hrun : (mintRun.runWith (answerAt 1800000001000 (landedAt "processed"))).any
        (fun out => out.1.all (polledAt "processed") && decide (out.2.toOption = some (sig, 99))) = true := by decide +kernel
    obtain ⟨t, hexec, hlevel⟩ := exec_mintRun_at hrun
    exact ⟨t, 99, hexec, fun ⟨v, hv, hconf⟩ => not_confirmedAt_of_processed hlevel hv hconf⟩
  · have hrun : ((handleMint mintCtx (.ok signedMint)).runWith (answerAt 1800000001000 (landedAt "processed"))).any
        (fun out => out.1.all (polledAt "processed") && out.1.any reports) = true := by decide +kernel
    obtain ⟨t, u, hexec, htest⟩ := Prog.exists_exec_of_runWith hrun
    obtain ⟨hlevel, hreports⟩ := Bool.and_eq_true_iff.mp htest
    refine ⟨t, hexec, fun hconfirmed => ?_⟩
    obtain ⟨e, he, hsome⟩ := List.any_eq_true.mp hreports
    obtain ⟨out, hout⟩ := Option.isSome_iff_exists.mp hsome
    obtain ⟨sig', v, -, hv, hconf⟩ := hconfirmed e he out hout
    exact not_confirmedAt_of_processed hlevel hv hconf

end ChainBridge
