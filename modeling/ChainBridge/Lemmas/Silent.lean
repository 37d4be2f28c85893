import ChainBridge.Consumer

/-!
# The parts of the handlers that only read and audit

Most parts of a handler make calls that neither sign nor submit, leave the shared maps alone and report nothing: they read the
clock and the blockhash, simulate, poll, append audit entries. One lemma for each of them says so, with what is known of the
result when it returns; a monitor of the handlers then needs one rule for all of them.
-/

namespace ChainBridge

open Interleave

/-- The transaction with at most its blockhash changed, and that only when it was empty. -/
def Redated (tx tx' : Transaction) : Prop :=
  tx' = tx ∨ tx.message.recentBlockhash = Hash.default ∧ ∃ h, tx' = tx.withBlockhash h

/-- The transaction with a signature in slot 0 and the other slots filled up with the default signature. -/
def Transaction.attach (tx : Transaction) (sig : Signature) : Transaction :=
  { tx with signatures := sig :: (resizeSignatures tx.signatures tx.message.numRequired).tail }

/-- The calls of the gates and of the signing path that read, simulate or audit, and the abort. -/
def Call.isReading : Call → Bool
  | .now => true
  | .blockhashGet => true
  | .getLatestBlockhash => true
  | .simulateTransaction _ => true
  | .auditAppend _ => true
  | .panic => true
  | _ => false

/-- The calls that read, simulate, poll or audit, and the abort. -/
def Call.isSilent : Call → Bool
  | .now => true
  | .blockhashGet => true
  | .getLatestBlockhash => true
  | .simulateTransaction _ => true
  | .getPublicKey _ => true
  | .getSignatureStatuses _ => true
  | .auditAppend _ => true
  | .panic => true
  | _ => false

namespace SilentAux

variable {Γ : Ctx}

/-- A part that makes silent calls only and returns values of `R`. -/
abbrev Silent {α : Type} (p : Handler α) (R : α → Prop) : Prop := p.Only (fun c => c.isSilent = true) R

/-- A part that neither asks for the key of Vault nor for a status either. -/
abbrev Reading {α : Type} (p : Handler α) (R : α → Prop) : Prop := p.Only (fun c => c.isReading = true) R

/-- A part that makes no call, but may abort at an index out of bounds. -/
abbrev Checked {α : Type} (p : Handler α) (R : α → Prop) : Prop := p.Only (fun c => c = .panic) R

theorem reading_of_checked {α : Type} {p : Handler α} {R : α → Prop} (hp : Checked p R) : Reading p R :=
  Prog.only_mono hp (fun c hc => by rw [hc]; rfl) fun _ h => h

theorem silent_of_reading {α : Type} {p : Handler α} {R : α → Prop} (hp : Reading p R) : Silent p R := by
  refine Prog.only_mono hp (fun c hc => ?_) fun _ h => h
  cases c <;> first | rfl | cases hc

/-- A part that makes no call: what it may do besides is abort. -/
theorem exec_checked {α : Type} {p : Handler α} {R : α → Prop} {t : List CallEvent} {a : α} (hp : Checked p R) (h : Prog.Exec p t a) :
    t = [] := by
  cases h with
  | nil => rfl
  | cons i r h =>
    obtain rfl := hp.1
    cases r

theorem reading_recordAudit (correlationId : String) (identity : SpiffeIdentity) (action : String) (outcome : AuditOutcome) :
    Reading (recordAudit correlationId identity action outcome) (fun _ => True) :=
  ⟨rfl, fun _ => ⟨rfl, fun _ => trivial⟩⟩

theorem reading_evaluateEnvelopeAuth (auth : Option EnvelopeAuth) (claimedIdentity : String) (canonical : Bytes)
    (forceSigned : Bool) :
    Reading (evaluateEnvelopeAuth Γ auth claimedIdentity canonical forceSigned)
      (fun r => ∃ nowMs, envelopeDecision Γ auth claimedIdentity canonical forceSigned nowMs = r) :=
  ⟨rfl, fun nowMs => ⟨nowMs, rfl⟩⟩

theorem reading_selectBlockhash (tx : Transaction) :
    Reading (selectBlockhash tx) (fun r => ∀ tx', r = .ok tx' → Redated tx tx') := by
  unfold selectBlockhash
  split
  · rename_i hdef
    refine ⟨rfl, fun cached => ?_⟩
    cases cached with
    | some entry =>
      rintro tx' h
      cases h
      exact Or.inr ⟨hdef, _, rfl⟩
    | none =>
      refine ⟨rfl, fun answer => ?_⟩
      cases answer with
      | ok entry =>
        rintro tx' h
        cases h
        exact Or.inr ⟨hdef, _, rfl⟩
      | error e =>
        rintro tx' h
        cases h
  · rintro tx' h
    cases h
    exact Or.inl rfl

theorem reading_presignSimulate (identity : SpiffeIdentity) (correlationId : String) (tx : Transaction) :
    Reading (presignSimulate Γ identity correlationId tx) (fun _ => True) := by
  unfold presignSimulate
  split
  · trivial
  · refine ⟨rfl, fun answer => ?_⟩
    rcases answer with e | ⟨_ | e, units⟩
    · trivial
    · trivial
    · show Reading (auditSignRejection _ _ _ _ >>= _ : Handler _) _
      exact Prog.only_bind (reading_recordAudit ..) fun _ _ => trivial

theorem checked_abort {α : Type} (R : α → Prop) : Checked (abort : Handler α) R := ⟨rfl, fun e => e.elim⟩

theorem checked_index {α : Type} (xs : List α) (i : Nat) : Checked (index xs i) (fun _ => i < xs.length) := by
  unfold index
  split
  · rename_i x hx
    exact (List.getElem?_eq_some_iff.mp hx).1
  · exact checked_abort _

theorem checked_logSigners (keys : List Pubkey) (is : List Nat) :
    Checked (logSigners keys is) (fun _ => ∀ i ∈ is, i < keys.length) := by
  induction is with
  | nil =>
    intro i hi
    cases hi
  | cons i is ih =>
    refine Prog.only_bind (checked_index keys i) (fun _ hi => Prog.only_mono ih (fun _ h => h) fun _ his => ?_)
    exact List.forall_mem_cons.mpr ⟨hi, his⟩

/-- The log of the payer and the signers returns only if their account keys exist. -/
theorem checked_logPayer (tx : Transaction) : Checked (logPayer Γ tx) (fun _ => Γ.infoEnabled = true →
    tx.message.accountKeys ≠ [] ∧
      (tx.message.numRequired ≤ 1 ∨ tx.message.numRequired ≤ tx.message.accountKeys.length)) := by
  unfold logPayer
  split
  · refine Prog.only_bind (checked_index _ _) (fun _ hpayer => ?_)
    split
    · rename_i hn
      refine Prog.only_mono (checked_logSigners _ _) (fun _ h => h) fun _ hsigners _ =>
        ⟨List.length_pos_iff.mp hpayer, Or.inr ?_⟩
      have := hsigners (tx.message.numRequired - 1) (List.mem_range.mpr (by omega))
      omega
    · rename_i hn
      exact fun _ => ⟨List.length_pos_iff.mp hpayer, Or.inl (by omega)⟩
  · rename_i hinfo
    exact fun h => (hinfo h).elim

theorem resizeSignatures_eq_nil_iff (sigs : List Signature) (n : Nat) : resizeSignatures sigs n = [] ↔ sigs = [] ∧ n = 0 := by
  unfold resizeSignatures
  split
  · rename_i h
    rw [List.append_eq_nil_iff, List.replicate_eq_nil_iff]
    constructor
    · rintro ⟨rfl, hn⟩
      exact ⟨rfl, by simpa using hn⟩
    · rintro ⟨rfl, rfl⟩
      exact ⟨rfl, rfl⟩
  · rename_i h
    refine ⟨fun hs => ⟨hs, ?_⟩, fun h => h.1⟩
    subst hs
    simpa using h

/-- There is a signature slot exactly when a signature is brought along or required. -/
theorem resizeSignatures_ne_nil_iff (sigs : List Signature) (n : Nat) :
    resizeSignatures sigs n ≠ [] ↔ sigs ≠ [] ∨ 1 ≤ n := by
  rw [ne_eq (resizeSignatures _ _), resizeSignatures_eq_nil_iff]
  by_cases hs : sigs = [] <;> simp [hs, Nat.one_le_iff_ne_zero]

theorem checked_attachSignature (tx : Transaction) (sig : Signature) : Checked (attachSignature tx sig)
    (fun tx' => (tx.signatures ≠ [] ∨ 1 ≤ tx.message.numRequired) ∧ tx' = tx.attach sig) := by
  unfold attachSignature
  split
  · exact checked_abort _
  · rename_i first rest hr
    refine ⟨?_, ?_⟩
    · rw [← resizeSignatures_ne_nil_iff, hr]
      exact List.cons_ne_nil _ _
    · rw [Transaction.attach, hr]
      rfl

/-- The poll asks for one status, again and again. -/
theorem only_resolveConfirmation {K : Call → Prop} {sig : Signature} (h : K (.getSignatureStatuses sig)) (attempts : Nat) :
    (resolveConfirmationBounded sig attempts).Only K (fun _ => True) := by
  induction attempts with
  | zero => trivial
  | succ n ih =>
    refine Prog.only_perform.mpr ⟨h, fun answer => ?_⟩
    cases pollVerdict answer with
    | some verdict => trivial
    | none => exact ih

theorem silent_resolveConfirmationBounded (sig : Signature) (attempts : Nat) :
    Silent (resolveConfirmationBounded sig attempts) (fun _ => True) := by
  refine only_resolveConfirmation ?_ attempts
  rfl

theorem silent_signatureStatus (signature : String) : Silent (signatureStatus Γ signature) (fun _ => True) := by
  unfold signatureStatus
  split
  · trivial
  · refine ⟨rfl, fun answer => ?_⟩
    rcases answer with e | _ | ⟨_ | status, rest⟩ <;> trivial

/-! ## Results -/

theorem ok_bind {ε α β : Type} {x : Except ε α} {f : α → Except ε β} {b : β} (h : (x >>= f) = .ok b) :
    ∃ a, x = .ok a ∧ f a = .ok b := by
  cases x with
  | error e => cases h
  | ok a => exact ⟨a, rfl, h⟩

theorem ok_of_mapError {ε ε' α : Type} {x : Except ε α} {f : ε → ε'} {a : α} (h : x.mapError f = .ok a) : x = .ok a := by
  cases x with
  | error e => cases h
  | ok a' =>
    cases h
    rfl

/-- The mint transaction that is serialized is unsigned, and its message is one with the payer given. -/
theorem serialize_of_mintTransaction {payer recipient : Pubkey} {amount : Nat} {meterId : Vector UInt8 16}
    {windowStartMs : Int64} {serialized : Bytes}
    (h : mintTransaction Γ payer recipient amount meterId windowStartMs = .ok serialized) :
    ∃ instructions, Γ.serialize (.newUnsigned (Γ.messageNew instructions payer)) = .ok serialized := by
  obtain ⟨instructions, -, h'⟩ := ok_bind h
  exact ⟨_, ok_of_mapError h'⟩

end SilentAux

end ChainBridge
