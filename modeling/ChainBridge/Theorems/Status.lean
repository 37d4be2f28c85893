import ChainBridge.Lemmas.Sample
import ChainBridge.Reads

/-!
# The readers of a signature status

Three readers decode the JSON that `get_signature_statuses` returns for a signature: the NATS reader, the gRPC handler and the
confirmation poll. They agree on a value exactly when it has the one key they name alike and no count of confirmations beside an
error. The providers write that key under another name, so on what they write the gRPC handler never returns the level.
-/

namespace ChainBridge

open Interleave

/-- The answer of the provider for one signature: the value comes first. -/
def statusTrace (sig : Signature) (v : Json) (rest : List (Option Json)) : List CallEvent :=
  [⟨.getSignatureStatuses sig, .ok (some v :: rest)⟩]

/-- The three readers agree on a value: the NATS reader and the gRPC handler report the same confirmation and the same level, no
confirmation beside an error, and one poll finds an error exactly when they report a transaction that is not confirmed, and a
slot only when they report it confirmed. -/
def ReadersAgree (Γ : Ctx) (valueToString : Json → String) (env : DevEnv) (headers : HeaderMap) (signature : String)
    (sig : Signature) (v : Json) (rest : List (Option Json)) : Prop :=
  ∀ found confirmed level slot response verdict,
    Prog.Exec (signatureStatus Γ signature) (statusTrace sig v rest) (.ok (found, confirmed, level, slot)) →
    Prog.Exec (getSignatureStatus Γ valueToString env headers signature) (statusTrace sig v rest) (.ok response) →
    Prog.Exec (resolveConfirmationBounded sig 1) (statusTrace sig v rest) verdict →
    response.confirmed = confirmed ∧ response.status = level ∧
    ((v.field "err").isNull = false → confirmed = false ∧ response.confirmed = false) ∧
    (verdict = .errored ↔ found = true ∧ confirmed = false) ∧ (verdict = .errored ↔ response.confirmed = false) ∧
    ∀ s, verdict = .confirmed s → confirmed = true ∧ response.confirmed = true ∧ slot = s

/-- A value on which the readers agree: it has a string under `confirmation_status`, and no unsigned number under `confirmations`
where `err` is not null. -/
def AgreedShape (v : Json) : Prop :=
  (v.field "confirmation_status").asStr.isSome = true ∧
    ((v.field "err").isNull = true ∨ (v.field "confirmations").asU64 = none)

namespace StatusAux

variable {Γ : Ctx} {valueToString : Json → String} {env : DevEnv} {headers : HeaderMap} {signature : String}
  {sig : Signature} {v : Json} {rest : List (Option Json)}

/-- What the NATS reader makes of a value. -/
theorem exec_signatureStatus (hsig : Γ.signatureFromStr signature = .ok sig)
    {r : Except String (Bool × Bool × String × Nat)} :
    Prog.Exec (signatureStatus Γ signature) (statusTrace sig v rest) r ↔
      r = .ok (true, (v.field "err").isNull, (v.field "confirmation_status").asStr.getD "processed",
        (v.field "slot").asU64.getD 0) := by
  unfold signatureStatus statusTrace
  rw [hsig]
  simp only
  rw [Prog.exec_perform_cons]
  exact Prog.exec_ret.trans ⟨fun h => h.2.symm, fun h => ⟨rfl, h.symm⟩⟩

/-- What the gRPC handler makes of a value. -/
theorem exec_getSignatureStatus (hrole : Γ.requireAny (extractRole Γ env headers) readRoles = .ok ())
    (hsig : Γ.signatureFromStr signature = .ok sig) {r : Except ConnectError GetSignatureStatusResponse} :
    Prog.Exec (getSignatureStatus Γ valueToString env headers signature) (statusTrace sig v rest) r ↔
      r = .ok
        { confirmed := (v.field "confirmations").asU64.isSome || (v.field "err").isNull
          status := (v.field "confirmation_status").asStr.getD "Unknown"
          error := if (v.field "err").isNull then "" else valueToString (v.field "err") } := by
  unfold getSignatureStatus statusTrace
  rw [hrole, hsig]
  simp only
  rw [Prog.exec_perform_cons]
  exact Prog.exec_ret.trans ⟨fun h => h.2.symm, fun h => ⟨rfl, h.symm⟩⟩

/-- What one poll makes of a value. -/
theorem exec_onePoll {verdict : ConfirmOutcome} :
    Prog.Exec (resolveConfirmationBounded sig 1) (statusTrace sig v rest) verdict ↔
      verdict = (pollVerdict (.ok (some v :: rest))).getD .pending := by
  unfold resolveConfirmationBounded statusTrace
  rw [Prog.exec_perform_cons]
  cases pollVerdict (.ok (some v :: rest)) with
  | none => exact Prog.exec_ret.trans ⟨fun h => h.2.symm, fun h => ⟨rfl, h.symm⟩⟩
  | some verdict' => exact Prog.exec_ret.trans ⟨fun h => h.2.symm, fun h => ⟨rfl, h.symm⟩⟩

/-- One poll finds an error exactly where the error is not null. -/
theorem errored_iff : (pollVerdict (.ok (some v :: rest))).getD .pending = .errored ↔ (v.field "err").isNull = false := by
  rw [pollVerdict_status]
  cases (v.field "err").isNull with
  | false => simp
  | true =>
    simp only [if_true]
    cases (v.field "slot").asU64 <;> simp

/-- One poll confirms at the slot of the value, and only where the error is null. -/
theorem confirmed_of_poll {s : Nat} (h : (pollVerdict (.ok (some v :: rest))).getD .pending = .confirmed s) :
    (v.field "err").isNull = true ∧ (v.field "slot").asU64 = some s := by
  rw [pollVerdict_status] at h
  cases herr : (v.field "err").isNull with
  | false => simp [herr] at h
  | true =>
    rw [herr, if_pos rfl] at h
    cases hs : (v.field "slot").asU64 with
    | none => simp [hs] at h
    | some s' =>
      have hss : s' = s := by simpa [hs] using h
      exact ⟨rfl, by rw [hss]⟩

/-- Two defaults that differ are told apart exactly where the value is missing. -/
theorem getD_eq_iff {o : Option String} : o.getD "Unknown" = o.getD "processed" ↔ o.isSome = true := by
  cases o with
  | none => decide
  | some s => simp

end StatusAux

open StatusAux

/-- The three readers agree on a value exactly when it has the shape above. -/
theorem readersAgree_iff (Γ : Ctx) (valueToString : Json → String) (env : DevEnv) (headers : HeaderMap) (signature : String)
    (sig : Signature) (v : Json) (rest : List (Option Json))
    (hrole : Γ.requireAny (extractRole Γ env headers) readRoles = .ok ())
    (hsig : Γ.signatureFromStr signature = .ok sig) :
    ReadersAgree Γ valueToString env headers signature sig v rest ↔ AgreedShape v := by
  constructor
  · intro h
    have hv := h _ _ _ _ _ _ ((exec_signatureStatus hsig).mpr rfl) ((exec_getSignatureStatus hrole hsig).mpr rfl)
      (exec_onePoll.mpr rfl)
    obtain ⟨hconf, hlevel, -⟩ := hv
    refine ⟨getD_eq_iff.mp hlevel, ?_⟩
    cases herr : (v.field "err").isNull with
    | true => exact Or.inl rfl
    | false =>
      have hnone : (v.field "confirmations").asU64.isSome = false := by simpa [herr] using hconf
      exact Or.inr (Option.not_isSome_iff_eq_none.mp (by simp [hnone]))
  · rintro ⟨hlevel, hshape⟩ found confirmed level slot response verdict hnats hgrpc hpoll
    obtain ⟨rfl, rfl, rfl, rfl⟩ : found = true ∧ confirmed = (v.field "err").isNull ∧
        level = (v.field "confirmation_status").asStr.getD "processed" ∧ slot = (v.field "slot").asU64.getD 0 := by
      simpa using (exec_signatureStatus hsig).mp hnats
    have hresponse := Except.ok.inj ((exec_getSignatureStatus hrole hsig).mp hgrpc)
    have hverdict := exec_onePoll.mp hpoll
    -- a count of confirmations changes nothing where the error is null or the count is missing
    have hconf : response.confirmed = (v.field "err").isNull := by
      rw [hresponse]
      rcases hshape with herr | hnone
      · simp [herr]
      · simp [hnone]
    refine ⟨hconf, ?_, ?_, ?_, ?_, ?_⟩
    · rw [hresponse]
      exact getD_eq_iff.mpr hlevel
    · intro herr
      exact ⟨herr, hconf.trans herr⟩
    · rw [hverdict, errored_iff]
      simp
    · rw [hverdict, errored_iff, hconf]
    · intro s hs
      obtain ⟨herr, hslot⟩ := confirmed_of_poll (hverdict.symm.trans hs)
      exact ⟨herr, hconf.trans herr, by rw [hslot, Option.getD_some]⟩

namespace StatusAux

/-- The text of the signature asked for. -/
def signatureText : String := "1111111111111111111111111111111111111111111111111111111111111111"

/-- The text of the account asked for. -/
def accountText : String := "4vJ9JU1bJJE96FWSJKvHsmmFADCg4gpZQff4P3bkLKi"

/-- The context in which an admin asks for one signature and one account. -/
def readCtx : Ctx :=
  { SampleAux.ctx [] with
    headerToStr := fun v => String.fromUTF8? ⟨v.toArray⟩
    signatureFromStr := fun s => if s = signatureText then .ok .default else .error "failed to decode base58"
    pubkeyFromStr := fun s => if s = accountText then .ok SampleAux.payer else .error "Invalid" }

/-- The header of the admin. -/
def adminHeaders : HeaderMap := [(spiffeIdHeader, strBytes "spiffe://gridtokenx.th/prod/admin")]

/-- The environment of a deployment. -/
def noDevModes : DevEnv := { chainBridgeInsecure := none, chainBridgeAllowHeaderAuth := none }

theorem readCtx_role : readCtx.requireAny (extractRole readCtx noDevModes adminHeaders) readRoles = .ok () := by
  have hrole : extractRole readCtx noDevModes adminHeaders = .admin := by decide +kernel
  rw [hrole]
  rfl

theorem readCtx_signature : readCtx.signatureFromStr signatureText = .ok .default := by
  simp only [readCtx, if_true]

/-- A status under the key names of the readers. -/
def readerStatus : Json :=
  .obj [("slot", .posInt 4242), ("confirmations", .posInt 10), ("err", .null), ("confirmation_status", .str "confirmed")]

/-- A status of a transaction that failed on chain, with a count of confirmations. -/
def failedStatus : Json :=
  .obj [("slot", .posInt 99), ("confirmations", .posInt 1), ("err", .obj [("InstructionError", .arr [.posInt 0])]),
    ("confirmationStatus", .str "processed")]

end StatusAux

/-- A value on which the readers agree. -/
theorem readersAgree_on_readerStatus :
    ReadersAgree readCtx (fun _ => "") noDevModes adminHeaders signatureText .default readerStatus [] :=
  (readersAgree_iff readCtx (fun _ => "") noDevModes adminHeaders signatureText .default readerStatus [] readCtx_role
    readCtx_signature).mpr ⟨rfl, Or.inl rfl⟩

/-- The gRPC handler reports a transaction that failed on chain as confirmed, at a level the NATS reader does not report. -/
theorem readers_disagree_on_failedStatus :
    readCtx.requireAny (extractRole readCtx noDevModes adminHeaders) readRoles = .ok () ∧
    readCtx.signatureFromStr signatureText = .ok .default ∧ (failedStatus.field "err").isNull = false ∧
    Prog.Exec (signatureStatus readCtx signatureText) (statusTrace .default failedStatus []) (.ok (true, false, "processed", 99)) ∧
    Prog.Exec (getSignatureStatus readCtx (fun _ => "") noDevModes adminHeaders signatureText)
      (statusTrace .default failedStatus []) (.ok { confirmed := true, status := "Unknown", error := "" }) ∧
    ¬ReadersAgree readCtx (fun _ => "") noDevModes adminHeaders signatureText .default failedStatus [] := by
  have hnats : Prog.Exec (signatureStatus readCtx signatureText) (statusTrace .default failedStatus [])
      (.ok (true, false, "processed", 99)) := (exec_signatureStatus readCtx_signature).mpr rfl
  have hgrpc : Prog.Exec (getSignatureStatus readCtx (fun _ => "") noDevModes adminHeaders signatureText)
      (statusTrace .default failedStatus []) (.ok { confirmed := true, status := "Unknown", error := "" }) :=
    (exec_getSignatureStatus readCtx_role readCtx_signature).mpr rfl
  refine ⟨readCtx_role, readCtx_signature, rfl, hnats, hgrpc, fun h => ?_⟩
  have hconf := (h _ _ _ _ _ _ hnats hgrpc (exec_onePoll.mpr rfl)).1
  cases hconf

/-! ## What the providers write and what is read -/

/-- The NATS reader returns the level of a status a provider wrote. -/
def NatsReadsLevel (Γ : Ctx) (signature : String) (sig : Signature) (st : SignatureStatus) : Prop :=
  ∀ r, Prog.Exec (signatureStatus Γ signature) (statusTrace sig st.toJson []) r →
    ∃ found confirmed slot, r = .ok (found, confirmed, st.level.text, slot)

/-- The gRPC handler returns the level of a status a provider wrote. -/
def GrpcReadsLevel (Γ : Ctx) (valueToString : Json → String) (env : DevEnv) (headers : HeaderMap) (signature : String)
    (sig : Signature) (st : SignatureStatus) : Prop :=
  ∀ r, Prog.Exec (getSignatureStatus Γ valueToString env headers signature) (statusTrace sig st.toJson []) r →
    ∃ response, r = .ok response ∧ response.status = st.level.text

/-- The gRPC handler returns the balance a provider wrote. -/
def GrpcReadsBalance (Γ : Ctx) (env : DevEnv) (headers : HeaderMap) (text : String) (pubkey : Pubkey) (b : TokenBalance) :
    Prop :=
  ∀ r, Prog.Exec (getTokenAccountBalance Γ env headers text) [⟨.getTokenAccountBalance pubkey, .ok b.toJson⟩] r →
    r = .ok { amount := b.amount, decimals := b.decimals.toNat, uiAmount := b.uiAmount }

namespace StatusAux

variable {Γ : Ctx} {valueToString : Json → String} {env : DevEnv} {headers : HeaderMap} {signature : String}
  {sig : Signature}

/-- No provider writes the key under which the readers look for the level. -/
theorem field_toJson (st : SignatureStatus) : st.toJson.field "confirmation_status" = .null := by
  simp [SignatureStatus.toJson, Json.field, Json.get?]

/-- The NATS reader answers `processed` whatever the level. -/
theorem natsReadsLevel_iff (hsig : Γ.signatureFromStr signature = .ok sig) (st : SignatureStatus) :
    NatsReadsLevel Γ signature sig st ↔ st.level = .processed := by
  constructor
  · intro h
    obtain ⟨found, confirmed, slot, hr⟩ := h _ ((exec_signatureStatus hsig).mpr rfl)
    have hlevel : st.level.text = "processed" := by
      rw [field_toJson] at hr
      simp only [Json.asStr, Option.getD_none, Except.ok.injEq, Prod.mk.injEq] at hr
      exact hr.2.2.1.symm
    cases hst : st.level with
    | processed => rfl
    | confirmed =>
      rw [hst] at hlevel
      exact absurd hlevel (by decide)
    | finalized =>
      rw [hst] at hlevel
      exact absurd hlevel (by decide)
  · intro hst r hr
    refine ⟨true, (st.toJson.field "err").isNull, (st.toJson.field "slot").asU64.getD 0, ?_⟩
    rw [(exec_signatureStatus hsig).mp hr, field_toJson, hst]
    rfl

/-- The gRPC handler answers `Unknown` whatever the level. -/
theorem not_grpcReadsLevel (hrole : Γ.requireAny (extractRole Γ env headers) readRoles = .ok ())
    (hsig : Γ.signatureFromStr signature = .ok sig) (st : SignatureStatus) :
    ¬GrpcReadsLevel Γ valueToString env headers signature sig st := by
  intro h
  obtain ⟨response, hr, hlevel⟩ := h _ ((exec_getSignatureStatus hrole hsig).mpr rfl)
  rw [← Except.ok.inj hr, field_toJson] at hlevel
  have hunknown : "Unknown" = st.level.text := hlevel
  cases hst : st.level <;> rw [hst] at hunknown <;> exact absurd hunknown (by decide)

/-- What the balance handler makes of a value. -/
theorem exec_getTokenAccountBalance {text : String} {pubkey : Pubkey} {v : Json}
    (hrole : Γ.requireAny (extractRole Γ env headers) readRoles = .ok ()) (hkey : Γ.pubkeyFromStr text = .ok pubkey)
    {r : Except ConnectError GetTokenAccountBalanceResponse} :
    Prog.Exec (getTokenAccountBalance Γ env headers text) [⟨.getTokenAccountBalance pubkey, .ok v⟩] r ↔
      r = .ok
        { amount := (v.field "amount").asStr.getD "0"
          decimals := ((v.field "decimals").asU64.getD 0) % 2 ^ 32
          uiAmount := (v.field "ui_amount").asF64.getD 0 } := by
  unfold getTokenAccountBalance
  rw [hrole, hkey]
  simp only
  rw [Prog.exec_perform_cons]
  exact Prog.exec_ret.trans ⟨fun h => h.2.symm, fun h => ⟨rfl, h.symm⟩⟩

/-- The balance handler reads the amount and the decimals a provider wrote, and zero for the amount for display. -/
theorem response_toJson (b : TokenBalance) :
    ({ amount := (b.toJson.field "amount").asStr.getD "0"
       decimals := ((b.toJson.field "decimals").asU64.getD 0) % 2 ^ 32
       uiAmount := (b.toJson.field "ui_amount").asF64.getD 0 } : GetTokenAccountBalanceResponse) =
      { amount := b.amount, decimals := b.decimals.toNat, uiAmount := 0 } := by
  simp [TokenBalance.toJson, Json.field, Json.get?, Json.asStr, Json.asU64, Json.asF64]

theorem grpcReadsBalance_iff {text : String} {pubkey : Pubkey}
    (hrole : Γ.requireAny (extractRole Γ env headers) readRoles = .ok ()) (hkey : Γ.pubkeyFromStr text = .ok pubkey)
    (b : TokenBalance) : GrpcReadsBalance Γ env headers text pubkey b ↔ b.uiAmount = 0 := by
  constructor
  · intro h
    have hr := h _ ((exec_getTokenAccountBalance hrole hkey).mpr rfl)
    rw [response_toJson] at hr
    simpa using hr.symm
  · intro hui r hr
    rw [(exec_getTokenAccountBalance hrole hkey).mp hr, response_toJson, hui]

end StatusAux

/-- On no status do both readers return the level a provider wrote: the gRPC handler never does, the NATS reader only for
`processed`; and a balance is returned only where its amount for display is zero. -/
theorem readers_never_match_providers (Γ : Ctx) (valueToString : Json → String) (env : DevEnv) (headers : HeaderMap)
    (signature text : String) (sig : Signature) (pubkey : Pubkey)
    (hrole : Γ.requireAny (extractRole Γ env headers) readRoles = .ok ()) (hsig : Γ.signatureFromStr signature = .ok sig)
    (hkey : Γ.pubkeyFromStr text = .ok pubkey) (st : SignatureStatus) (b : TokenBalance) :
    ¬(NatsReadsLevel Γ signature sig st ∧ GrpcReadsLevel Γ valueToString env headers signature sig st ∧
      GrpcReadsBalance Γ env headers text pubkey b) ∧
    ¬GrpcReadsLevel Γ valueToString env headers signature sig st ∧
    (NatsReadsLevel Γ signature sig st ↔ st.level = .processed) ∧
    (GrpcReadsBalance Γ env headers text pubkey b ↔ b.uiAmount = 0) := by
  have hgrpc : ¬GrpcReadsLevel Γ valueToString env headers signature sig st := not_grpcReadsLevel hrole hsig st
  exact ⟨fun h => hgrpc h.2.1, hgrpc, natsReadsLevel_iff hsig st, grpcReadsBalance_iff hrole hkey b⟩

namespace StatusAux

/-- The status `SurfpoolSolanaProvider` writes for every signature. -/
def surfpoolStatus : SignatureStatus := { slot := 0, confirmations := some 1, err := .null, level := .finalized }

/-- The balance it writes for every account: the amount for display is `1.0`. -/
def surfpoolBalance : TokenBalance := { amount := "1000000000", decimals := 9, uiAmount := 0x3ff0000000000000 }

theorem readCtx_account : readCtx.pubkeyFromStr accountText = .ok SampleAux.payer := by
  simp only [readCtx, if_true]

end StatusAux

/-- A status on which the NATS reader is right and the gRPC handler is not. -/
theorem processed_read_by_nats_only :
    NatsReadsLevel readCtx signatureText .default { surfpoolStatus with level := .processed } ∧
    ¬GrpcReadsLevel readCtx (fun _ => "") noDevModes adminHeaders signatureText .default
      { surfpoolStatus with level := .processed } ∧
    ¬GrpcReadsBalance readCtx noDevModes adminHeaders accountText SampleAux.payer surfpoolBalance := by
  obtain ⟨-, hgrpc, hnats, hbalance⟩ := readers_never_match_providers readCtx (fun _ => "") noDevModes adminHeaders signatureText
    accountText .default SampleAux.payer readCtx_role readCtx_signature readCtx_account
    { surfpoolStatus with level := .processed } surfpoolBalance
  exact ⟨hnats.mpr rfl, hgrpc, fun h => absurd (hbalance.mp h) (by decide)⟩

/-- A finalized status is read as `processed` and as `Unknown`, and a balance of one token as zero. -/
theorem surfpool_values_misread :
    Prog.Exec (signatureStatus readCtx signatureText) (statusTrace .default surfpoolStatus.toJson [])
      (.ok (true, true, "processed", 0)) ∧
    Prog.Exec (getSignatureStatus readCtx (fun _ => "") noDevModes adminHeaders signatureText)
      (statusTrace .default surfpoolStatus.toJson []) (.ok { confirmed := true, status := "Unknown", error := "" }) ∧
    Prog.Exec (getTokenAccountBalance readCtx noDevModes adminHeaders accountText)
      [⟨.getTokenAccountBalance SampleAux.payer, .ok surfpoolBalance.toJson⟩]
      (.ok { amount := "1000000000", decimals := 9, uiAmount := 0 }) ∧
    ¬(NatsReadsLevel readCtx signatureText .default surfpoolStatus ∧
      GrpcReadsLevel readCtx (fun _ => "") noDevModes adminHeaders signatureText .default surfpoolStatus ∧
      GrpcReadsBalance readCtx noDevModes adminHeaders accountText SampleAux.payer surfpoolBalance) := by
  refine ⟨(exec_signatureStatus readCtx_signature).mpr rfl, (exec_getSignatureStatus readCtx_role readCtx_signature).mpr rfl,
    (exec_getTokenAccountBalance readCtx_role readCtx_account).mpr ?_, fun h => ?_⟩
  · rw [response_toJson]
    rfl
  · exact not_grpcReadsLevel readCtx_role readCtx_signature surfpoolStatus h.2.1

end ChainBridge
