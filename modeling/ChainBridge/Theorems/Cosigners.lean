import ChainBridge.Lemmas.Signing
import ChainBridge.Lemmas.Sample

/-!
# Co-signatures

Vault signs the fee payer's slot only; the other signers of a transaction have signed it before it reaches the bridge. What
they signed is the message as received, and the signing path puts another blockhash into a message whose blockhash is empty:
the signatures of the others then belong to a message that is not sent.
-/

namespace ChainBridge

open Interleave

/-- A slot of a transaction holds a signature that verifies for its account key over the message data. -/
def SlotVerifies (Γ : Ctx) (verify : Pubkey → Bytes → Signature → Bool) (tx : Transaction) (i : Nat) : Prop :=
  ∃ key sig, tx.message.accountKeys[i]? = some key ∧ tx.signatures[i]? = some sig ∧
    verify key (Γ.messageData tx.message) sig = true

/-- A transaction that waits only for the signature of its payer, which is the key in Vault. -/
structure Cosigned (Γ : Ctx) (verify : Pubkey → Bytes → Signature → Bool) (vaultKey : Pubkey) (tx : Transaction) : Prop where
  required : 1 ≤ tx.message.numRequired
  keys : tx.message.numRequired ≤ tx.message.accountKeys.length
  payer : tx.message.accountKeys[0]? = some vaultKey
  others : ∀ i, 1 ≤ i → i < tx.message.numRequired → SlotVerifies Γ verify tx i

/-- Every signature Vault gave verifies for its public key and the message it was asked to sign. -/
def VaultVerifies (verify : Pubkey → Bytes → Signature → Bool) (vaultKey : Pubkey) (t : List CallEvent) : Prop :=
  ∀ name msg sig, (⟨.signMessage name msg, .ok sig⟩ : CallEvent) ∈ t → verify vaultKey msg sig = true

/-- Whenever the signing path for `platform_admin` comes to a submission, every required slot of the transaction verifies. -/
def SignaturesSurvive (Γ : Ctx) (verify : Pubkey → Bytes → Signature → Bool) (vaultKey : Pubkey) (serializedTx : Bytes)
    (identity : SpiffeIdentity) (correlationId : String) : Prop :=
  ∀ t sent k, Prog.Steps (signAndSubmit Γ serializedTx platformAdmin identity correlationId) t (.call (.sendTransaction sent) k) →
    VaultVerifies verify vaultKey t → ∀ i < sent.message.numRequired, SlotVerifies Γ verify sent i

namespace CosignersAux

open SilentAux SigningAux

variable {Γ : Ctx} {verify : Pubkey → Bytes → Signature → Bool} {vaultKey : Pubkey} {tx tx' : Transaction}

/-! ## The slots of a transaction that was signed -/

/-- Filling up keeps the signatures that were there. -/
theorem resizeSignatures_getElem? {sigs : List Signature} {i : Nat} {sig : Signature} (h : sigs[i]? = some sig) (n : Nat) :
    (resizeSignatures sigs n)[i]? = some sig := by
  unfold resizeSignatures
  split
  · rw [List.getElem?_append_left (List.getElem?_eq_some_iff.mp h).1]
    exact h
  · exact h

/-- Slot 0 holds the signature that was attached, the other slots what they held. -/
theorem attach_getElem?_succ {i : Nat} {sig sig' : Signature} (h : tx.signatures[i + 1]? = some sig) :
    (tx.attach sig').signatures[i + 1]? = some sig := by
  have hresized := resizeSignatures_getElem? h tx.message.numRequired
  show (sig' :: (resizeSignatures tx.signatures tx.message.numRequired).tail)[i + 1]? = some sig
  rw [List.getElem?_cons_succ, List.getElem?_tail]
  exact hresized

/-- The payer's slot verifies once Vault has signed. -/
theorem payer_verifies {sig : Signature} (hpayer : tx.message.accountKeys[0]? = some vaultKey)
    (h : verify vaultKey (Γ.messageData tx.message) sig = true) : SlotVerifies Γ verify (tx.attach sig) 0 :=
  ⟨vaultKey, sig, hpayer, rfl, h⟩

/-- A slot that another signer filled still verifies if the message is the one received. -/
theorem other_verifies {i : Nat} {sig : Signature} (h : SlotVerifies Γ verify tx (i + 1)) :
    SlotVerifies Γ verify (tx.attach sig) (i + 1) := by
  obtain ⟨key, sig', hkey, hsig, hverify⟩ := h
  exact ⟨key, sig', hkey, attach_getElem?_succ hsig, hverify⟩

/-! ## Runs that submit -/

/-- What is submitted is the decoded transaction, dated where its blockhash was empty, with a signature of Vault attached. -/
theorem exists_attached {serializedTx : Bytes} {identity : SpiffeIdentity} {correlationId : String} {t : List CallEvent}
    {sent : Transaction} {k : Except String Signature → Handler (Except SignSubmitStage (Signature × Nat))}
    (hdecoded : Γ.deserialize serializedTx = .ok tx)
    (h : Prog.Steps (signAndSubmit Γ serializedTx platformAdmin identity correlationId) t (.call (.sendTransaction sent) k)) :
    Γ.validateTransaction identity tx = .ok () ∧ ∃ tx' sig, Redated tx tx' ∧ sent = tx'.attach sig ∧
      (⟨.signMessage Γ.transitKeyName (Γ.messageData tx'.message), .ok sig⟩ : CallEvent) ∈ t := by
  cases sendFacts_of_steps h with
  | unsigned _ _ _ hkey => exact absurd hkey (by decide)
  | signed tx₁ tx' before after sig hs _ ht hsent _ =>
    have htx : tx₁ = tx := Except.ok.inj (hs.decoded.symm.trans hdecoded)
    subst htx
    refine ⟨hs.allowed, tx', sig, hs.redated, hsent, ?_⟩
    rw [ht]
    exact List.mem_append_right _ List.mem_cons_self

/-- The signing path submits a transaction it has dated, for any blockhash and any signature of Vault. -/
theorem exists_steps_to_send {serializedTx : Bytes} (identity : SpiffeIdentity) (correlationId : String)
    (hdecoded : Γ.deserialize serializedTx = .ok tx) (hallowed : Γ.validateTransaction identity tx = .ok ())
    (hindexable : Indexable Γ tx) (hundated : tx.message.recentBlockhash = Hash.default) (bh : Hash) (sig : Signature) :
    ∃ before k, Quiet before ∧ Prog.Steps (signAndSubmit Γ serializedTx platformAdmin identity correlationId)
      (before ++ [⟨.signMessage Γ.transitKeyName (Γ.messageData (tx.withBlockhash bh).message), .ok sig⟩])
      (.call (.sendTransaction ((tx.withBlockhash bh).attach sig)) k) := by
  obtain ⟨before, hquiet, hsign⟩ := exec_signPlatformAdmin hundated hindexable identity correlationId bh sig
  obtain ⟨k, hk⟩ : ∃ k, sendSigned Γ identity correlationId ((tx.withBlockhash bh).attach sig) = .call (.sendTransaction _) k :=
    ⟨_, rfl⟩
  refine ⟨before, k, hquiet, ?_⟩
  unfold signAndSubmit
  rw [hdecoded, ← hk]
  simp only [hallowed, if_true]
  exact Prog.steps_bind.mpr (Or.inr ⟨_, [], _, (List.append_nil _).symm, hsign, .nil _⟩)

theorem indexable_of_cosigned (h : Cosigned Γ verify vaultKey tx) : Indexable Γ tx := by
  refine ⟨fun _ => ⟨?_, Or.inr h.keys⟩, Or.inr h.required⟩
  intro hnil
  have hpayer := h.payer
  rw [hnil] at hpayer
  cases hpayer

/-- With an empty blockhash and a second signer, some run submits a transaction whose second signature does not verify. -/
theorem not_survive {serializedTx : Bytes} {identity : SpiffeIdentity} {correlationId : String} (bh : Hash) (sig : Signature)
    (hdecoded : Γ.deserialize serializedTx = .ok tx) (hcosigned : Cosigned Γ verify vaultKey tx)
    (hunique : ∀ key m m' sig, verify key m sig = true → verify key m' sig = true → m = m')
    (hallowed : Γ.validateTransaction identity tx = .ok ()) (hseveral : 1 < tx.message.numRequired)
    (hundated : tx.message.recentBlockhash = Hash.default)
    (hdata : Γ.messageData (tx.withBlockhash bh).message ≠ Γ.messageData tx.message)
    (hvault : verify vaultKey (Γ.messageData (tx.withBlockhash bh).message) sig = true) :
    ¬SignaturesSurvive Γ verify vaultKey serializedTx identity correlationId := by
  intro hsurvive
  obtain ⟨before, k, hquiet, hsteps⟩ := exists_steps_to_send identity correlationId hdecoded hallowed
    (indexable_of_cosigned hcosigned) hundated bh sig
  have hverifies : VaultVerifies verify vaultKey (before ++
      [⟨.signMessage Γ.transitKeyName (Γ.messageData (tx.withBlockhash bh).message), .ok sig⟩]) := by
    intro name msg sig' hmem
    rcases List.mem_append.mp hmem with hmem | hmem
    · cases hquiet _ hmem
    · cases List.mem_singleton.mp hmem
      exact hvault
  obtain ⟨key, cosig, hkey, hcosig, hverify⟩ := hsurvive _ _ k hsteps hverifies 1 hseveral
  -- the second slot is the one received, and it verifies for the message received
  obtain ⟨key', cosig', hkey', hcosig', hverify'⟩ := hcosigned.others 1 (Nat.le_refl 1) hseveral
  have hslot : ((tx.withBlockhash bh).attach sig).signatures[1]? = some cosig' :=
    attach_getElem?_succ (show (tx.withBlockhash bh).signatures[0 + 1]? = some cosig' from hcosig')
  have hkeys : key = key' := Option.some.inj (hkey.symm.trans hkey')
  have hsigs : cosig = cosig' := Option.some.inj (hcosig.symm.trans hslot)
  subst hkeys hsigs
  exact hdata (hunique key _ _ cosig hverify hverify')

end CosignersAux

open CosignersAux SilentAux

/-- The co-signatures of a transaction survive the signing of `platform_admin` in every run if and only if the policy refuses
the transaction, or no other signature is required, or the transaction brings its own blockhash. Assumed of the functions the
bridge calls: a signature verifies for at most one message per key, the message data tells the blockhash, and Vault can sign
the message under some blockhash. -/
theorem cosignatures_survive_iff (Γ : Ctx) (verify : Pubkey → Bytes → Signature → Bool) (vaultKey : Pubkey) (serializedTx : Bytes)
    (identity : SpiffeIdentity) (correlationId : String) (tx : Transaction) (hdecoded : Γ.deserialize serializedTx = .ok tx)
    (hcosigned : Cosigned Γ verify vaultKey tx)
    (hunique : ∀ key m m' sig, verify key m sig = true → verify key m' sig = true → m = m')
    (hdata : ∀ h h', Γ.messageData (tx.withBlockhash h).message = Γ.messageData (tx.withBlockhash h').message → h = h')
    (hvault : ∃ h sig, h ≠ Hash.default ∧ verify vaultKey (Γ.messageData (tx.withBlockhash h).message) sig = true) :
    SignaturesSurvive Γ verify vaultKey serializedTx identity correlationId ↔
      (∃ reason, Γ.validateTransaction identity tx = .error reason) ∨ tx.message.numRequired = 1 ∨
        tx.message.recentBlockhash ≠ Hash.default := by
  constructor
  · intro hsurvive
    obtain ⟨h, sig, hne, hsig⟩ := hvault
    cases hpolicy : Γ.validateTransaction identity tx with
    | error reason => exact Or.inl ⟨reason, rfl⟩
    | ok u =>
      refine Or.inr (Classical.byContradiction fun hnot => ?_)
      rw [not_or, Classical.not_not] at hnot
      obtain ⟨hseveral, hundated⟩ := hnot
      have hsame : tx.withBlockhash Hash.default = tx := by
        rw [← hundated]
        rfl
      have hother : Γ.messageData (tx.withBlockhash h).message ≠ Γ.messageData tx.message := by
        intro heq
        rw [← hsame] at heq
        exact hne (hdata _ _ heq)
      have hrequired := hcosigned.required
      exact not_survive _ _ hdecoded hcosigned hunique hpolicy (by omega) hundated hother hsig hsurvive
  · intro hcond t sent k hsteps hverifies i hi
    obtain ⟨hallowed, tx', sig, hredated, rfl, hmem⟩ := exists_attached hdecoded hsteps
    have hsig := hverifies _ _ _ hmem
    have hkeys : tx'.message.accountKeys = tx.message.accountKeys := by
      rcases hredated with rfl | ⟨-, h, rfl⟩ <;> rfl
    have hrequired : tx'.message.numRequired = tx.message.numRequired := by
      rcases hredated with rfl | ⟨-, h, rfl⟩ <;> rfl
    have hi' : i < tx.message.numRequired := hrequired ▸ hi
    cases i with
    | zero => exact payer_verifies (hkeys ▸ hcosigned.payer) hsig
    | succ i =>
      -- a second slot is required, so the blockhash was not empty and the message is the one received
      rcases hcond with ⟨reason, hrefused⟩ | hone | hdated
      · rw [hallowed] at hrefused
        cases hrefused
      · omega
      · rcases hredated with rfl | ⟨hundated, -⟩
        · exact other_verifies (hcosigned.others (i + 1) (by omega) hi')
        · exact (hdated hundated).elim

namespace CosignersAux

open SampleAux

/-- The second signer of a transaction, and the signature it gave. -/
def cosigner : Pubkey := ⟨Vector.replicate 32 2⟩

/-- Its signature. -/
def cosignature : Signature := ⟨Vector.replicate 64 2⟩

/-- A transaction of two signers, signed by the second. -/
def sharedTx (blockhash : Hash) : Transaction :=
  { signatures := [Signature.default, cosignature]
    message := { header := ⟨2, 0, 0⟩, accountKeys := [payer, cosigner], recentBlockhash := blockhash, instructions := [] } }

/-- Verification by a table of what was signed: the second signer the transaction as received, Vault the one with blockhash
`h`. -/
def verifyShared (blockhash h : Hash) (key : Pubkey) (message : Bytes) (signature : Signature) : Bool :=
  decide ((key = cosigner ∧ signature = cosignature ∧ message = encodeMessage (sharedTx blockhash).message) ∨
    (key = payer ∧ signature = sig ∧ message = encodeMessage (sharedTx h).message))

theorem payer_ne_cosigner : payer ≠ cosigner := by decide

theorem verifyShared_unique (blockhash h : Hash) (key : Pubkey) (m m' : Bytes) (signature : Signature)
    (hm : verifyShared blockhash h key m signature = true) (hm' : verifyShared blockhash h key m' signature = true) : m = m' := by
  rcases of_decide_eq_true hm with ⟨hkey, -, hdata⟩ | ⟨hkey, -, hdata⟩ <;>
    rcases of_decide_eq_true hm' with ⟨hkey', -, hdata'⟩ | ⟨hkey', -, hdata'⟩
  · exact hdata.trans hdata'.symm
  · exact (payer_ne_cosigner (hkey'.symm.trans hkey)).elim
  · exact (payer_ne_cosigner (hkey.symm.trans hkey')).elim
  · exact hdata.trans hdata'.symm

theorem numRequired_sharedTx (blockhash : Hash) : (sharedTx blockhash).message.numRequired = 2 := rfl

theorem deserialize_singleton (tx : Transaction) : (ctx [tx]).deserialize (encodeTransaction tx) = .ok tx := by
  simp [ctx]

theorem cosigned_sharedTx (txs : List Transaction) (blockhash h : Hash) :
    Cosigned (ctx txs) (verifyShared blockhash h) payer (sharedTx blockhash) where
  required := numRequired_sharedTx blockhash ▸ (by omega)
  keys := numRequired_sharedTx blockhash ▸ Nat.le_refl 2
  payer := rfl
  others := by
    intro i h₁ h₂
    rw [numRequired_sharedTx] at h₂
    have hi : i = 1 := by omega
    subst hi
    exact ⟨cosigner, cosignature, rfl, rfl, decide_eq_true (Or.inl ⟨rfl, rfl, rfl⟩)⟩

/-- The message data of the transaction tells its blockhash. -/
theorem encodeMessage_sharedTx_inj {h h' : Hash} (heq : encodeMessage (sharedTx h).message = encodeMessage (sharedTx h').message) :
    h = h' := by
  obtain ⟨b⟩ := h
  obtain ⟨b'⟩ := h'
  simp only [encodeMessage, sharedTx, List.append_assoc, List.append_cancel_left_eq, List.append_cancel_right_eq,
    Vector.toList_inj] at heq
  rw [heq]

theorem verify_payer (blockhash h : Hash) : verifyShared blockhash h payer (encodeMessage (sharedTx h).message) sig = true :=
  decide_eq_true (Or.inr ⟨rfl, rfl, rfl⟩)

end CosignersAux

open SampleAux in
/-- A transaction of two signers that brings its blockhash: both signatures verify when it is submitted. -/
theorem shared_transaction_survives : SignaturesSurvive (ctx [sharedTx (hashOf 5)]) (verifyShared (hashOf 5) (hashOf 5)) payer
    (encodeTransaction (sharedTx (hashOf 5))) ⟨matcher⟩ "c" := by
  have hdated : hashOf 5 ≠ Hash.default := by decide
  exact (cosignatures_survive_iff _ _ _ _ _ _ _ (deserialize_singleton _) (cosigned_sharedTx _ _ _) (verifyShared_unique _ _)
    (fun h h' heq => encodeMessage_sharedTx_inj heq) ⟨hashOf 5, sig, hdated, verify_payer _ _⟩).mpr (Or.inr (Or.inr hdated))

open SampleAux in
/-- Not every co-signed transaction keeps its signatures: the second signer signed an empty blockhash, and the bridge fills it
in. -/
theorem undated_cosignature_lost : ¬∀ (Γ : Ctx) (verify : Pubkey → Bytes → Signature → Bool) (vaultKey : Pubkey)
    (serializedTx : Bytes) (identity : SpiffeIdentity) (correlationId : String) (tx : Transaction),
    Γ.deserialize serializedTx = .ok tx → Cosigned Γ verify vaultKey tx →
    (∀ key m m' sig, verify key m sig = true → verify key m' sig = true → m = m') →
    SignaturesSurvive Γ verify vaultKey serializedTx identity correlationId := by
  intro hall
  have hdecoded := deserialize_singleton (sharedTx .default)
  have hcosigned := cosigned_sharedTx [sharedTx .default] .default (hashOf 7)
  have hunique := verifyShared_unique .default (hashOf 7)
  have hother : encodeMessage (sharedTx (hashOf 7)).message ≠ encodeMessage (sharedTx .default).message := by
    intro heq
    exact absurd (encodeMessage_sharedTx_inj heq) (by decide)
  exact not_survive (hashOf 7) sig hdecoded hcosigned hunique rfl (by decide) rfl hother (verify_payer _ _)
    (hall _ _ _ _ ⟨matcher⟩ "c" _ hdecoded hcosigned hunique)

end ChainBridge
