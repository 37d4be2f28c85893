import ChainBridge.Lib.Base64
import ChainBridge.Lemmas.Sample
import ChainBridge.Lemmas.Vault

/-!
# The public key of the bridge is the key it signs with

`get_public_key` and `sign_message` know nothing of each other: the first takes whichever version of the key its map yields first,
and remembers it for good, while the second is answered under the latest version. They agree as long as the latest version comes
first and no remembered key is used after a rotation.
-/

namespace ChainBridge

open Interleave

/-- What the client gives out as the public key of a name is what it signs with under the name. A rotation is in between two calls
when it comes after the first was made and before the second returned. -/
structure KeysAgree (T : Transit) (log : VaultLog) : Prop where
  /-- A public key that was returned verifies the signature of a later call. -/
  verifies : ∀ (t u : Nat) (keyName : String) (message : Bytes) (pk : Pubkey) (sig : Signature) (l₁ l₂ l₃ l₄ : VaultLog),
    log = l₁ ++ .deliver t (.getPublicKey keyName) :: (l₂ ++ .deliver u (.signMessage keyName message) ::
      (l₃ ++ .call u ⟨.returnSignature (.ok sig), ()⟩ :: l₄)) →
    .call t ⟨.returnKey (.ok pk), ()⟩ ∈ l₂ → (∀ pair, .env (.rotate keyName pair) ∉ l₂ ++ l₃) →
    T.verify pk message sig = true
  /-- The payer of a generation mint is the key whose signature is in slot 0. -/
  payer : ∀ (t : Nat) (recipientWallet : String) (energyKwh : UInt64) (meterId : Vector UInt8 16) (windowStartMs : Int64)
    (identity : SpiffeIdentity) (correlationId : String) (tx : Transaction) (answer : Except String Signature)
    (l₁ l₂ l₃ : VaultLog),
    log = l₁ ++ .deliver t (.mint recipientWallet energyKwh meterId windowStartMs identity correlationId) ::
      (l₂ ++ .call t ⟨.other (.sendTransaction tx), answer⟩ :: l₃) →
    (∀ pair, .env (.rotate T.transitKeyName pair) ∉ l₂) →
    ∃ pair, tx.message.accountKeys.head? = some (T.publicKey pair) ∧
      tx.signatures.head? = some (T.sign pair (T.messageData tx.message))

namespace VaultAux

variable {T : Transit} {keyName : String}

/-! ## What is returned -/

/-- The calls that the two functions of the client make. -/
def isInner : ClientCall → Bool
  | .cacheGet _ => true
  | .cacheInsert _ _ => true
  | .getKey _ => true
  | .postSign _ _ => true
  | _ => false

theorem only_getPublicKey (keyName : String) :
    (getPublicKey T keyName).Only (fun c => isInner c = true) (fun _ => True) := by
  refine Prog.only_perform.mpr ⟨rfl, fun found => ?_⟩
  cases found with
  | some pk => trivial
  | none =>
    refine Prog.only_perform.mpr ⟨rfl, fun answer => ?_⟩
    cases answer with
    | error e => trivial
    | ok keys =>
      simp only
      split
      · trivial
      · exact ⟨rfl, fun _ => trivial⟩

theorem only_signMessage (keyName : String) (message : Bytes) :
    (signMessage T keyName message).Only (fun c => isInner c = true) (fun _ => True) := by
  refine Prog.only_perform.mpr ⟨rfl, fun answer => ?_⟩
  cases answer <;> trivial

/-- A request returns what its function did. -/
def ReturnsOwn (T : Transit) (m : VaultRequest) (past : List ClientEvent) : ClientCall → Prop
  | .returnKey r => ∀ keyName, m = .getPublicKey keyName → Prog.Exec (getPublicKey T keyName) past r
  | .returnSignature r => ∀ keyName message, m = .signMessage keyName message →
    Prog.Exec (signMessage T keyName message) past r
  | _ => True

theorem wp_returnsOwn (m : VaultRequest) :
    ((vault T).start m).wp (Monitor.history (ReturnsOwn T m)) [] (fun _ _ => True) := by
  have hcalls : ∀ past c, isInner c = true → ReturnsOwn T m past c := by
    intro past c hc
    cases c <;> trivial
  cases m with
  | getPublicKey keyName =>
    refine (Prog.wp_bind ..).mpr (Prog.wp_mono (Prog.wp_history (only_getPublicKey keyName) hcalls []) ?_)
    rintro past r ⟨ts, rfl, hexec⟩
    refine ⟨fun name hname => ?_, fun _ => trivial⟩
    cases hname
    exact hexec
  | signMessage keyName message =>
    refine (Prog.wp_bind ..).mpr (Prog.wp_mono (Prog.wp_history (only_signMessage keyName message) hcalls []) ?_)
    rintro past r ⟨ts, rfl, hexec⟩
    refine ⟨fun name msg hname => ?_, fun _ => trivial⟩
    cases hname
    exact hexec
  | mint recipientWallet energyKwh meterId windowStartMs identity correlationId =>
    refine (Prog.wp_bind ..).mpr (Prog.wp_mono (Prog.wp_handle (fun c past => ?_) _ []) fun _ _ _ => trivial)
    cases c with
    | getPublicKey keyName => exact Prog.wp_mono (Prog.wp_history (only_getPublicKey keyName) hcalls past) fun _ _ _ => trivial
    | signMessage keyName message =>
      exact Prog.wp_mono (Prog.wp_history (only_signMessage keyName message) hcalls past) fun _ _ _ => trivial
    | _ => exact ⟨trivial, fun _ => trivial⟩

/-! ## The signature -/

/-- The engine signs what was encoded for it with the latest version. -/
theorem signText_of_serveSign (hT : T.Lawful) {w : VaultWorld} {message : Bytes} {proposed : Except String String}
    {text : String} (h : serveSign T w keyName (T.base64Encode message) proposed = .ok text) :
    ∃ key, w.keys.get? keyName = some key ∧ text = key.signText T message := by
  unfold serveSign at h
  rw [hT.decode_encode] at h
  cases proposed with
  | error e => cases h
  | ok r =>
    cases hkey : w.keys.get? keyName with
    | none =>
      rw [hkey] at h
      cases h
    | some key =>
      rw [hkey] at h
      exact ⟨key, rfl, (Except.ok.inj h).symm⟩

/-- A signature asked for after a public key was learned, without a rotation in between, is of the same key pair. -/
theorem same_pair (hT : T.Lawful) {keys : KeyMap String TransitKey} {p : VaultPool} {t u : Nat} {e : ClientEvent} {pk : Pubkey}
    {message : Bytes} {text : String} {sig : Signature} {l₁ l₂ l₃ : VaultLog}
    (h : Pool.Reach (vault T) (LatestRead T) (Pool.init (.start keys)) p)
    (hlog : p.log = l₁ ++ .call t e :: l₂ ++ .call u ⟨.postSign keyName (T.base64Encode message), .ok text⟩ :: l₃)
    (he : Learns T keyName pk e) (hsig : T.parseSignature text = .ok sig) (hrot : ∀ pair, .env (.rotate keyName pair) ∉ l₂) :
    ∃ pair, pk = T.publicKey pair ∧ sig = T.sign pair message := by
  obtain ⟨p₁, q₁, hr, -, hs, hbefore⟩ := h.step_of_split hlog
  obtain ⟨key, hkey, rfl⟩ := current_since hT hr hbefore he hrot
  obtain ⟨m, k, r, -, hanswer, -⟩ := hs.call_inv
  obtain ⟨key', hkey', rfl⟩ := signText_of_serveSign hT hanswer.symm
  rw [hkey, Option.some.injEq] at hkey'
  subst hkey'
  rw [parseSignature_signText hT] at hsig
  exact ⟨key.latest, rfl, (Except.ok.inj hsig).symm⟩

/-- A request returns what its function did since the delivery. -/
theorem returnsOwn_of_deliver {C : VaultWorld → VaultLog → VaultLabel → Prop} {w : VaultWorld} {p : VaultPool} {t : Nat}
    {m : VaultRequest} {e : ClientEvent} {l₁ l₂ l₃ : VaultLog} (h : Pool.Reach (vault T) C (Pool.init w) p)
    (hlog : p.log = l₁ ++ .deliver t m :: (l₂ ++ .call t e :: l₃)) : ReturnsOwn T m (traceOf t l₂) e.1 := by
  obtain ⟨q, hsteps⟩ := h.steps_since_deliver hlog
  rw [Pool.traceOf_append, Pool.traceOf_cons_self] at hsteps
  exact Prog.history_allow (wp_returnsOwn m) hsteps

/-- A call of `get_public_key` that returned has learned its key between its delivery and its return. -/
theorem learned_of_returnKey {C : VaultWorld → VaultLog → VaultLabel → Prop} {w : VaultWorld} {p : VaultPool} {t : Nat}
    {pk : Pubkey} {l₁ l₂ l₃ : VaultLog} (h : Pool.Reach (vault T) C (Pool.init w) p)
    (hlog : p.log = l₁ ++ .deliver t (.getPublicKey keyName) :: (l₂ ++ .call t ⟨.returnKey (.ok pk), ()⟩ :: l₃)) :
    ∃ e, .call t e ∈ l₂ ∧ Learns T keyName pk e := by
  obtain ⟨e, he, hlearns⟩ := learns_of_getPublicKey (returnsOwn_of_deliver h hlog keyName rfl)
  exact ⟨e, Pool.mem_traceOf.mp he, hlearns⟩

/-- A call of `sign_message` that returned has asked the engine between its delivery and its return. -/
theorem posted_of_returnSignature {C : VaultWorld → VaultLog → VaultLabel → Prop} {w : VaultWorld} {p : VaultPool} {t : Nat}
    {message : Bytes} {sig : Signature} {l₁ l₂ l₃ : VaultLog} (h : Pool.Reach (vault T) C (Pool.init w) p)
    (hlog : p.log = l₁ ++ .deliver t (.signMessage keyName message) ::
      (l₂ ++ .call t ⟨.returnSignature (.ok sig), ()⟩ :: l₃)) :
    ∃ text, .call t ⟨.postSign keyName (T.base64Encode message), .ok text⟩ ∈ l₂ ∧ T.parseSignature text = .ok sig := by
  obtain ⟨text, htext, hparse⟩ := posts_of_signMessage (returnsOwn_of_deliver h hlog keyName message rfl)
  exact ⟨text, Pool.mem_traceOf.mp htext, hparse⟩

/-! ## The mint -/

/-- When a handler on the client comes to another call, the handler itself has come to it. -/
theorem steps_vaultProvider {α : Type} {p : Handler α} {ts : List ClientEvent} {c : Call} {k : c.Answer → Client α}
    (h : Prog.Steps (p.handle (vaultProvider T)) ts (.call (.other c) k)) :
    ∃ us k', Prog.Steps p us (.call c k') ∧ Prog.Serves (vaultProvider T) us ts := by
  obtain ⟨us, i, k', ts₁, ts₂, k'', hp, rfl, hserves, hi⟩ := Prog.steps_handle h
  have hthrough : ∀ k₀, Prog.Steps (Prog.perform (ClientCall.other i) : Client i.Answer) ts₂ (.call (.other c) k₀) →
      i = c ∧ ts₂ = [] := by
    intro k₀ hperform
    rcases Prog.steps_call.mp hperform with ⟨hts, hcall⟩ | ⟨r, ts', -, hret⟩
    · cases hcall
      exact ⟨rfl, hts⟩
    · cases (Prog.steps_ret.mp hret).2
  have hsame : i = c ∧ ts₂ = [] := by
    cases i with
    | getPublicKey keyName => cases (Prog.only_steps (only_getPublicKey keyName) hi).2.1
    | signMessage keyName message => cases (Prog.only_steps (only_signMessage keyName message) hi).2.1
    | _ => exact hthrough _ hi
  obtain ⟨rfl, rfl⟩ := hsame
  rw [List.append_nil]
  exact ⟨us, k', hp, hserves⟩

/-- A handler on the client that was given a public key and then a signature has learned the key and then asked the engine. -/
theorem learns_of_serves {payer : Pubkey} {message : Bytes} {sig : Signature} {before middle after : List CallEvent}
    {ts : List ClientEvent} (h : Prog.Serves (vaultProvider T) (before ++ ⟨.getPublicKey keyName, .ok payer⟩ ::
      (middle ++ ⟨.signMessage keyName message, .ok sig⟩ :: after)) ts) :
    ∃ e text ts₁ ts₂ ts₃, Learns T keyName payer e ∧ T.parseSignature text = .ok sig ∧
      ts = ts₁ ++ e :: (ts₂ ++ ⟨.postSign keyName (T.base64Encode message), .ok text⟩ :: ts₃) := by
  obtain ⟨a₁, a₂, a₃, rfl, -, hget, hrest⟩ := h.split
  obtain ⟨b₁, b₂, b₃, rfl, -, hsign, -⟩ := hrest.split
  obtain ⟨e, he, hlearns⟩ := learns_of_getPublicKey hget
  obtain ⟨text, htext, hparse⟩ := posts_of_signMessage hsign
  obtain ⟨a₂, a₂', rfl⟩ := List.append_of_mem he
  obtain ⟨b₂, b₂', rfl⟩ := List.append_of_mem htext
  refine ⟨e, text, a₁ ++ a₂, a₂' ++ b₁ ++ b₂, b₂' ++ b₃, hlearns, hparse, ?_⟩
  simp

/-- What a mint has done when it comes to submit: the payer it asked for is its first account, and the signature it was given after
that is in slot 0. -/
theorem mint_of_steps (hT : T.Lawful) {recipientWallet : String} {energyKwh : UInt64} {meterId : Vector UInt8 16}
    {windowStartMs : Int64} {identity : SpiffeIdentity} {correlationId : String} {tx : Transaction} {us : List CallEvent}
    {k : Except String Signature → Handler (Except String (Signature × Nat))}
    (h : Prog.Steps (buildAndSubmitGenerationMint T.toCtx recipientWallet energyKwh meterId windowStartMs identity
      correlationId) us (.call (.sendTransaction tx) k)) :
    ∃ payer sig before middle after, tx.message.accountKeys.head? = some payer ∧ tx.signatures.head? = some sig ∧
      us = before ++ ⟨.getPublicKey T.transitKeyName, .ok payer⟩ ::
        (middle ++ ⟨.signMessage T.transitKeyName (T.messageData tx.message), .ok sig⟩ :: after) := by
  have hsends := (Prog.wp_steps (wp_mintSends ..) h).1
  rw [Monitor.after_history, List.nil_append] at hsends
  obtain ⟨payer, sig, instructions, serialized, decoded, before, middle, after, hus, hser, hdec, hkeys, hsig⟩ := hsends
  refine ⟨payer, sig, before, middle, after, ?_, hsig, hus⟩
  rw [hT.deserialize_serialize _ _ hser] at hdec
  rw [hkeys, ← Except.ok.inj hdec]
  exact hT.payer_first instructions payer

/-- When a mint request comes to submit, so does the mint it runs on the client. -/
theorem steps_of_mint {recipientWallet : String} {energyKwh : UInt64} {meterId : Vector UInt8 16} {windowStartMs : Int64}
    {identity : SpiffeIdentity} {correlationId : String} {ts : List ClientEvent} {c : ClientCall} {k : c.Answer → Client Unit}
    (h : Prog.Steps ((vault T).start (.mint recipientWallet energyKwh meterId windowStartMs identity correlationId)) ts
      (.call c k)) : ∃ k', Prog.Steps ((buildAndSubmitGenerationMint T.toCtx recipientWallet energyKwh meterId windowStartMs
        identity correlationId).handle (vaultProvider T)) ts (.call c k') := by
  rcases Prog.steps_bind.mp h with ⟨p', hp', hcall⟩ | ⟨t₁, t₂, a, -, -, hret⟩
  · cases p' with
    | ret a => cases hcall
    | call c' k' =>
      cases hcall
      exact ⟨k', hp'⟩
  · cases (Prog.steps_ret.mp hret).2

end VaultAux

open VaultAux in
/-- In every run in which the engine shows the latest version of a key first, and a cached key is found only while the key has not
been rotated since it was fetched, a public key given out verifies the signatures under its name until the next rotation, and the
payer of a generation mint is the key that signed it. -/
theorem public_key_signs {T : Transit} (hT : T.Lawful) {keys : KeyMap String TransitKey} {p : VaultPool}
    (h : Pool.Reach (vault T) (LatestRead T) (Pool.init (.start keys)) p) : KeysAgree T p.log := by
  constructor
  · intro t u keyName message pk sig l₁ l₂ l₃ l₄ hlog hreturned hrot
    obtain ⟨m₁, m₂, rfl⟩ := List.append_of_mem hreturned
    have hget : p.log = l₁ ++ .deliver t (.getPublicKey keyName) :: (m₁ ++ .call t ⟨.returnKey (.ok pk), ()⟩ ::
        (m₂ ++ .deliver u (.signMessage keyName message) ::
          (l₃ ++ .call u ⟨.returnSignature (.ok sig), ()⟩ :: l₄))) := by
      simpa using hlog
    have hsign : p.log = (l₁ ++ .deliver t (.getPublicKey keyName) :: (m₁ ++ .call t ⟨.returnKey (.ok pk), ()⟩ :: m₂)) ++
        .deliver u (.signMessage keyName message) :: (l₃ ++ .call u ⟨.returnSignature (.ok sig), ()⟩ :: l₄) := by
      simpa using hlog
    -- the step that learned the key and the step that asked for the signature
    obtain ⟨e, he, hlearns⟩ := learned_of_returnKey h hget
    obtain ⟨text, htext, hparse⟩ := posted_of_returnSignature h hsign
    obtain ⟨a₁, a₂, rfl⟩ := List.append_of_mem he
    obtain ⟨b₁, b₂, rfl⟩ := List.append_of_mem htext
    -- nothing between the two steps is a rotation
    have hbetween : ∀ pair, .env (.rotate keyName pair) ∉
        a₂ ++ .call t ⟨.returnKey (.ok pk), ()⟩ :: (m₂ ++ .deliver u (.signMessage keyName message) :: b₁) := by
      intro pair hmem
      refine hrot pair ?_
      simp only [List.mem_append, List.mem_cons, reduceCtorEq, false_or] at hmem ⊢
      rcases hmem with hmem | hmem | hmem <;> simp [hmem]
    have hsplit : p.log = (l₁ ++ .deliver t (.getPublicKey keyName) :: a₁) ++ .call t e ::
        (a₂ ++ .call t ⟨.returnKey (.ok pk), ()⟩ :: (m₂ ++ .deliver u (.signMessage keyName message) :: b₁)) ++
        .call u ⟨.postSign keyName (T.base64Encode message), .ok text⟩ ::
          (b₂ ++ .call u ⟨.returnSignature (.ok sig), ()⟩ :: l₄) := by
      simpa using hlog
    obtain ⟨pair, rfl, rfl⟩ := same_pair hT h hsplit hlearns hparse hbetween
    exact hT.verify_sign pair message
  · intro t recipientWallet energyKwh meterId windowStartMs identity correlationId tx answer l₁ l₂ l₃ hlog hrot
    obtain ⟨q, hsteps⟩ := h.steps_since_deliver hlog
    rw [Pool.traceOf_append, Pool.traceOf_cons_self] at hsteps
    obtain ⟨k, hsend⟩ := hsteps.split
    -- the mint itself made its two calls to Vault, and the client served them in this order
    obtain ⟨k', hhandled⟩ := steps_of_mint hsend
    obtain ⟨us, k'', hmint, hserves⟩ := steps_vaultProvider hhandled
    obtain ⟨payer, sig, before, middle, after, hpayer, hsig, rfl⟩ := mint_of_steps hT hmint
    obtain ⟨e, text, ts₁, ts₂, ts₃, hlearns, hparse, htrace⟩ := learns_of_serves hserves
    obtain ⟨a₁, a, rfl, -, ha⟩ := Pool.split_of_traceOf htrace
    obtain ⟨a₂, a₃, rfl, -, -⟩ := Pool.split_of_traceOf ha
    have hsplit : p.log = (l₁ ++ .deliver t (.mint recipientWallet energyKwh meterId windowStartMs identity correlationId) :: a₁)
        ++ .call t e :: a₂ ++
        .call t ⟨.postSign T.transitKeyName (T.base64Encode (T.messageData tx.message)), .ok text⟩ ::
          (a₃ ++ .call t ⟨.other (.sendTransaction tx), answer⟩ :: l₃) := by
      simpa using hlog
    have hbetween : ∀ pair, .env (.rotate T.transitKeyName pair) ∉ a₂ := by
      intro pair hmem
      exact hrot pair (by simp [hmem])
    obtain ⟨pair, rfl, rfl⟩ := same_pair hT h hsplit hlearns hparse hbetween
    exact ⟨pair, hpayer, hsig⟩

namespace VaultAux

open SampleAux

/-- The development key pair of the source. -/
def devPair : KeyPair := ⟨digestOf 0xf1030f0b3bbd00fb14b745b50318f19417b3b158d6bb1d9d02427f3535b915d1⟩

/-- The key pair of the version after it. -/
def newPair : KeyPair := ⟨Vector.replicate 32 7⟩

/-- The public key of the development key pair. -/
def devKey : Pubkey := ⟨digestOf 0xcffd8d903ac06935c1664959fa92f6b585300610e714e59b36bf58cc2427a1fb⟩

/-- The public key of the version after it. -/
def newKey : Pubkey := ⟨digestOf 0xea4a6c63e29c520abef5507b132ec5f9954776aebebe7b92421eea691446d22c⟩

/-- A signature by its two halves. -/
def signatureOf (r s : Nat) : Signature := ⟨digestOf r ++ digestOf s⟩

/-- A message to sign. -/
def testMessage : Bytes := strBytes "test"

/-- The transaction of a mint of 1.5 kWh, as it is built for the development key. -/
def devKeyTx : Transaction := .newUnsigned (compile [computeLimit 400000, mintInstruction 1500000000] devKey)

/-- The signatures of the two keys. -/
def signatureFor (pk : Pubkey) (message : Bytes) : Signature :=
  if pk = devKey ∧ message = testMessage then
    signatureOf 0x7c1eebe0a42867691edd0c893c798e009f60e1ee70ac49c367d3953e321b7f41
      0x386288b292c6602716e5503f387cd2f8e69f1514826755bc6e76ee21a9dbaa09
  else if pk = newKey ∧ message = testMessage then
    signatureOf 0x14474425611ee3d9a6d98ef55b6c0030363ea3aeeee7133834d5fd0896f509a0
      0xf2b747f77df17d80d31c56459c71a016eb0ec889579f7e757f3febca8a140007
  else if pk = devKey ∧ message = encodeMessage (devKeyTx.withBlockhash (hashOf 7)).message then
    signatureOf 0x8e99c3e43fbb11e487d5dc84ce225a904817a6f22c0c86ffa7b58be4c30ef4eb
      0x307b392abc9891493908846a85f819cd74567b74cd31f35403fda2b5aac6c90f
  else Signature.default

/-- The public keys of the two pairs. -/
def publicKeyOf (pair : KeyPair) : Pubkey :=
  if pair = devPair then devKey else if pair = newPair then newKey else ⟨pair.seed⟩

/-- Base64 as a result. -/
def base64DecodeText (s : String) : Except String Bytes :=
  match Base64.decode s.toList with
  | some bytes => .ok bytes
  | none => .error "Invalid padding"

/-- A context with base64, the two key pairs and the mint. -/
def transit : Transit where
  toCtx :=
    { mintCtx with
      deserialize := fun b =>
        if b = encodeTransaction devKeyTx then .ok devKeyTx else .error "io error: unexpected end of file"
      serialize := fun tx =>
        if tx = devKeyTx then .ok (encodeTransaction tx) else .error "the size limit has been reached"
      base64Decode := base64DecodeText }
  base64Encode := fun bytes => String.ofList (Base64.encode bytes)
  publicKey := publicKeyOf
  sign := fun pair message => signatureFor (publicKeyOf pair) message
  verify := fun pk message sig => decide (sig = signatureFor pk message)

theorem lawful_transit : transit.Lawful where
  decode_encode := by
    intro bytes
    show base64DecodeText (String.ofList (Base64.encode bytes)) = .ok bytes
    rw [base64DecodeText, String.toList_ofList, Base64.decode_encode]
  no_colon := by
    intro bytes
    show ':' ∉ (String.ofList (Base64.encode bytes)).toList
    rw [String.toList_ofList]
    exact Base64.not_mem_encode (by decide) (by decide) bytes
  verify_sign := fun pair message => decide_eq_true rfl
  deserialize_serialize := by
    intro tx bytes h
    simp only [transit] at h ⊢
    split at h
    · rename_i htx
      rw [← Except.ok.inj h, htx, if_pos rfl]
    · cases h
  payer_first := fun instructions payer => rfl

/-- The engine with the bridge's key in its first version. -/
def devKeys : KeyMap String TransitKey :=
  KeyMap.empty.insert "gridtokenx-bridge" { versions := [devPair], nonempty := List.cons_ne_nil _ _ }

/-- The answers of an environment in which everything succeeds. -/
def clientAnswer : (c : ClientCall) → Option c.Answer
  | .cacheGet _ => some none
  | .cacheInsert _ _ => some ()
  | .getKey _ => some (.ok [])
  | .postSign _ _ => some (.ok "")
  | .returnKey _ => some ()
  | .returnSignature _ => some ()
  | .other c => answer c

/-- Steps of the client asked for. -/
abbrev VaultScript : Type := List (Pool.Action ClientCall ClientCall.Answer VaultRequest VaultMove)

/-- Let a request make its next calls. -/
def clientCalls (t n : Nat) : VaultScript := List.replicate n (.call t clientAnswer)

/-- The key is read, used for a signature and for a mint, and then rotated. -/
def freshScript : VaultScript :=
  [.deliver 0 (.getPublicKey "gridtokenx-bridge")] ++ clientCalls 0 4 ++
    [.deliver 1 (.signMessage "gridtokenx-bridge" testMessage)] ++ clientCalls 1 2 ++
    [.deliver 2 (.mint signedMint.recipientWallet signedMint.energyKwh signedMint.meterId signedMint.windowStartMs
      ⟨signedMint.serviceIdentity⟩ signedMint.correlationId)] ++ clientCalls 2 6 ++
    [.env (.rotate "gridtokenx-bridge" newPair)]

/-- The key is read, then rotated, then read again and used for a signature. -/
def staleScript : VaultScript :=
  [.deliver 0 (.getPublicKey "gridtokenx-bridge")] ++ clientCalls 0 4 ++
    [.env (.rotate "gridtokenx-bridge" newPair), .deliver 1 (.getPublicKey "gridtokenx-bridge")] ++ clientCalls 1 2 ++
    [.deliver 2 (.signMessage "gridtokenx-bridge" testMessage)] ++ clientCalls 2 2

/-- The condition as a test. -/
def readsLatest (T : Transit) (w : VaultWorld) (log : VaultLog) : VaultLabel → Bool
  | .call _ ⟨.getKey keyName, .ok keys⟩ =>
    (w.keys.get? keyName).all fun key => decide (keys.head? = (key.entries T).getLast?)
  | .call _ ⟨.cacheGet keyName, some _⟩ => (standing keyName log).fresh
  | _ => true

theorem latestRead_of_test {T : Transit} {w : VaultWorld} {log : VaultLog} {l : VaultLabel}
    (h : readsLatest T w log l = true) : LatestRead T w log l := by
  unfold LatestRead
  split
  · intro key hkey
    simp only [readsLatest, hkey, Option.all_some, decide_eq_true_eq] at h
    exact h
  · exact h
  · trivial

/-- Whether a label returns the development key, returns its signature of the message, or submits a transaction it pays for. -/
def usesDevKey : VaultLabel → Bool
  | .call _ ⟨.returnKey (.ok pk), _⟩ => decide (pk = devKey)
  | .call _ ⟨.returnSignature (.ok sig), _⟩ => decide (sig = signatureFor devKey testMessage)
  | .call _ ⟨.other (.sendTransaction tx), _⟩ => decide (tx.message.accountKeys.head? = some devKey)
  | _ => false

/-- Whether a label is a move of the engine. -/
def isMove : VaultLabel → Bool
  | .env _ => true
  | _ => false

/-- Whether a history is a call that returns the old key, then one that returns a signature of the new one, with no move of the
engine in between. -/
def returnsStale : VaultLog → Bool
  | [.deliver 1 (.getPublicKey k₁), x, .call 1 ⟨.returnKey (.ok pk), _⟩, .deliver 2 (.signMessage k₂ message), y,
      .call 2 ⟨.returnSignature (.ok sig), _⟩] =>
    decide (k₁ = k₂ ∧ message = testMessage ∧ pk = devKey ∧ sig = signatureFor newKey testMessage) && !isMove x && !isMove y
  | _ => false

theorem stale_of_test {l : VaultLog} (h : returnsStale l = true) : ∃ keyName x y, isMove x = false ∧ isMove y = false ∧
    l = .deliver 1 (.getPublicKey keyName) :: ([x, .call 1 ⟨.returnKey (.ok devKey), ()⟩] ++
      .deliver 2 (.signMessage keyName testMessage) ::
        ([y] ++ [.call 2 ⟨.returnSignature (.ok (signatureFor newKey testMessage)), ()⟩])) := by
  unfold returnsStale at h
  split at h
  · simp only [Bool.and_eq_true, decide_eq_true_eq, Bool.not_eq_true'] at h
    obtain ⟨⟨⟨rfl, rfl, rfl, rfl⟩, hx⟩, hy⟩ := h
    exact ⟨_, _, _, hx, hy, rfl⟩
  · cases h

end VaultAux

open VaultAux SampleAux in
/-- A key that is read, signs a message and a mint, and is rotated only then. -/
theorem fresh_key_signs : ∃ p : VaultPool,
    Pool.Reach (vault transit) (LatestRead transit) (Pool.init (.start devKeys)) p ∧
    (p.log.filter usesDevKey).length = 3 ∧ KeysAgree transit p.log := by
  have hrun : ((Pool.init (.start devKeys) : VaultPool).exec (vault transit) (readsLatest transit) freshScript).any
      (fun p => decide ((p.log.filter usesDevKey).length = 3)) = true := by
    decide +kernel
  obtain ⟨p, hp, htest⟩ := Pool.exists_reach_of_exec (fun _ _ _ h => latestRead_of_test h) hrun
  exact ⟨p, hp, of_decide_eq_true htest, public_key_signs lawful_transit hp⟩

open VaultAux SampleAux in
/-- A key that was cached before its rotation does not verify what is signed after it. -/
theorem cached_key_outlives_rotation : ¬∀ (T : Transit), T.Lawful → ∀ (keys : KeyMap String TransitKey) (p : VaultPool),
    Pool.Reach (vault T) (fun _ _ _ => True) (Pool.init (.start keys)) p → KeysAgree T p.log := by
  intro h
  have hrun : ((Pool.init (.start devKeys) : VaultPool).exec (vault transit) (fun _ _ _ => true) staleScript).any
      (fun p => returnsStale (p.log.drop 6)) = true := by
    decide +kernel
  obtain ⟨p, hp, htest⟩ := Pool.exists_reach_of_exec (C := fun _ _ _ => True) (fun _ _ _ _ => trivial) hrun
  obtain ⟨keyName, x, y, hx, hy, hlog⟩ := stale_of_test htest
  have hagree := h transit lawful_transit devKeys p hp
  have hsplit := (List.take_append_drop 6 p.log).symm
  rw [hlog] at hsplit
  have hverify := hagree.verifies 1 2 keyName testMessage devKey _ _ _ _ [] hsplit (by simp) fun pair hmem => ?_
  · revert hverify
    decide +kernel
  · simp only [List.cons_append, List.nil_append, List.mem_cons, List.not_mem_nil, reduceCtorEq, false_or, or_false] at hmem
    rcases hmem with rfl | rfl
    · cases hx
    · cases hy

end ChainBridge
