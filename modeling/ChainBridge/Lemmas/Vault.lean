import ChainBridge.Vault
import ChainBridge.Lemmas.Signing

/-!
# What the Vault client knows of a key

The client learns a public key at one step of `get_public_key`: a cached key is found, or the engine answers. While every answer
of the engine has the latest version first, and every cached key found was read after the last rotation, the key it learns is the
latest version's, and stays so until the next rotation.
-/

namespace ChainBridge

open Interleave

/-- What the client and the mint rely on: base64 decodes what it encodes and has no colon, Ed25519 verifies what it signs, a
transaction is decoded as it was encoded, and the payer of a message is its first account. -/
structure Transit.Lawful (T : Transit) : Prop where
  decode_encode : ∀ bytes, T.base64Decode (T.base64Encode bytes) = .ok bytes
  no_colon : ∀ bytes, ':' ∉ (T.base64Encode bytes).toList
  verify_sign : ∀ pair message, T.verify (T.publicKey pair) message (T.sign pair message) = true
  deserialize_serialize : ∀ tx bytes, T.serialize tx = .ok bytes → T.deserialize bytes = .ok tx
  payer_first : ∀ instructions payer, (T.messageNew instructions payer).accountKeys.head? = some payer

/-- Which calls have fetched a key since it was last rotated, and whether the cached key is what one of them fetched. -/
structure Standing where
  fetched : List Nat
  fresh : Bool

/-- The standing of a key after one more step. -/
def Standing.next (keyName : String) (s : Standing) : VaultLabel → Standing
  | .call t ⟨.getKey name, _⟩ => if name = keyName then { s with fetched := t :: s.fetched } else s
  | .call t ⟨.cacheInsert name _, _⟩ => if name = keyName then { s with fresh := decide (t ∈ s.fetched) } else s
  | .env (.rotate name _) => if name = keyName then { fetched := [], fresh := false } else s
  | _ => s

/-- The standing of a key in a history. -/
def standing (keyName : String) (log : VaultLog) : Standing :=
  log.foldl (Standing.next keyName) { fetched := [], fresh := false }

/-- The engine shows the latest version of a key first, and a cached key is found only while the key has not been rotated since
the call that cached it fetched it. -/
def LatestRead (T : Transit) (w : VaultWorld) (log : VaultLog) : VaultLabel → Prop
  | .call _ ⟨.getKey keyName, .ok keys⟩ =>
    ∀ key, w.keys.get? keyName = some key → keys.head? = (key.entries T).getLast?
  | .call _ ⟨.cacheGet keyName, some _⟩ => (standing keyName log).fresh = true
  | _ => True

namespace VaultAux

open SilentAux SigningAux

variable {T : Transit} {keyName : String}

/-! ## The texts -/

theorem lastPart_append_colon {s t : String} (h : ':' ∉ t.toList) : lastPart ':' (s ++ ":" ++ t) = some t := by
  have hlist : (s ++ ":" ++ t).toList = s.toList ++ ':' :: t.toList := by
    simp
  rw [lastPart, hlist, List.splitOn_append_cons_self, List.splitOn_eq_singleton h]
  simp

/-- The client reads the signature of the latest version out of the engine's answer. -/
theorem parseSignature_signText (hT : T.Lawful) (key : TransitKey) (message : Bytes) :
    T.parseSignature (key.signText T message) = .ok (T.sign key.latest message) := by
  unfold Transit.parseSignature TransitKey.signText
  rw [lastPart_append_colon (hT.no_colon _)]
  simp [hT.decode_encode]

theorem getLast?_entries (key : TransitKey) :
    (key.entries T).getLast? = some (toString key.versions.length, T.base64Encode (T.publicKey key.latest).bytes.toList) := by
  obtain ⟨versions, hne⟩ := key
  rcases List.eq_nil_or_concat versions with rfl | ⟨vs, v, rfl⟩
  · exact (hne rfl).elim
  · simp [TransitKey.entries, TransitKey.latest, List.zipIdx_append]

/-- The first of the entries, when it is the latest version's, is read as its public key. -/
theorem firstKey_of_latest (hT : T.Lawful) {key : TransitKey} {keys : List (String × String)}
    (h : keys.head? = (key.entries T).getLast?) : T.firstKey keyName keys = .ok (T.publicKey key.latest) := by
  rw [getLast?_entries] at h
  obtain ⟨rest, rfl⟩ := List.head?_eq_some_iff.mp h
  simp [Transit.firstKey, hT.decode_encode]

/-! ## The programs -/

/-- The step at which `get_public_key` learns its key: the cached one is found, or the engine answers. -/
def Learns (T : Transit) (keyName : String) (pk : Pubkey) (e : ClientEvent) : Prop :=
  e = ⟨.cacheGet keyName, some pk⟩ ∨ ∃ keys, e = ⟨.getKey keyName, .ok keys⟩ ∧ T.firstKey keyName keys = .ok pk

/-- A key that `get_public_key` returns was learned in the call. -/
theorem learns_of_getPublicKey {ts : List ClientEvent} {pk : Pubkey} (h : Prog.Exec (getPublicKey T keyName) ts (.ok pk)) :
    ∃ e ∈ ts, Learns T keyName pk e := by
  obtain ⟨found, ts₁, rfl, h₁⟩ := Prog.exec_perform.mp h
  cases found with
  | some pk' =>
    cases (Prog.exec_ret.mp h₁).2
    exact ⟨_, List.mem_cons_self, Or.inl rfl⟩
  | none =>
    obtain ⟨answer, ts₂, rfl, h₂⟩ := Prog.exec_perform.mp h₁
    cases answer with
    | error e => cases (Prog.exec_ret.mp h₂).2
    | ok keys =>
      simp only at h₂
      split at h₂
      · cases (Prog.exec_ret.mp h₂).2
      · rename_i pk' hfirst
        obtain ⟨-, ts₃, rfl, h₃⟩ := Prog.exec_perform.mp h₂
        cases (Prog.exec_ret.mp h₃).2
        exact ⟨_, List.mem_cons_of_mem _ List.mem_cons_self, Or.inr ⟨keys, rfl, hfirst⟩⟩

/-- A signature that `sign_message` returns is in the answer of the engine to the message. -/
theorem posts_of_signMessage {ts : List ClientEvent} {message : Bytes} {sig : Signature}
    (h : Prog.Exec (signMessage T keyName message) ts (.ok sig)) : ∃ text,
      (⟨.postSign keyName (T.base64Encode message), .ok text⟩ : ClientEvent) ∈ ts ∧ T.parseSignature text = .ok sig := by
  obtain ⟨answer, ts', rfl, h'⟩ := Prog.exec_perform.mp h
  cases answer with
  | error e => cases (Prog.exec_ret.mp h').2
  | ok text => exact ⟨text, List.mem_cons_self, (Prog.exec_ret.mp h').2⟩

/-- A key is cached right after it was fetched. -/
def CachesFetched (T : Transit) (past : List ClientEvent) : ClientCall → Prop
  | .cacheInsert keyName pk =>
    ∃ keys, past.getLast? = some ⟨.getKey keyName, .ok keys⟩ ∧ T.firstKey keyName keys = .ok pk
  | _ => True

theorem wp_getPublicKey (keyName : String) (past : List ClientEvent) :
    (getPublicKey T keyName).wp (Monitor.history (CachesFetched T)) past (fun _ _ => True) := by
  refine (Prog.wp_perform_bind ..).mpr ⟨trivial, fun found => ?_⟩
  cases found with
  | some pk => trivial
  | none =>
    refine (Prog.wp_perform_bind ..).mpr ⟨trivial, fun answer => ?_⟩
    cases answer with
    | error e => trivial
    | ok keys =>
      simp only
      split
      · trivial
      · rename_i pk hfirst
        exact ⟨⟨keys, List.getLast?_concat, hfirst⟩, fun _ => trivial⟩

theorem wp_signMessage (keyName : String) (message : Bytes) (past : List ClientEvent) :
    (signMessage T keyName message).wp (Monitor.history (CachesFetched T)) past (fun _ _ => True) := by
  refine ⟨trivial, fun answer => ?_⟩
  cases answer <;> trivial

theorem wp_vaultProvider (c : Call) (past : List ClientEvent) :
    (vaultProvider T c).wp (Monitor.history (CachesFetched T)) past (fun _ _ => True) := by
  cases c with
  | getPublicKey keyName => exact wp_getPublicKey keyName past
  | signMessage keyName message => exact wp_signMessage keyName message past
  | _ => exact ⟨trivial, fun _ => trivial⟩

/-- Whatever runs on the client caches a key right after it fetched it. -/
theorem wp_start (m : VaultRequest) :
    ((vault T).start m).wp (Monitor.history (CachesFetched T)) [] (fun _ _ => True) := by
  cases m with
  | getPublicKey keyName =>
    exact (Prog.wp_bind ..).mpr (Prog.wp_mono (wp_getPublicKey keyName []) fun _ _ _ => ⟨trivial, fun _ => trivial⟩)
  | signMessage keyName message =>
    exact (Prog.wp_bind ..).mpr (Prog.wp_mono (wp_signMessage keyName message []) fun _ _ _ => ⟨trivial, fun _ => trivial⟩)
  | mint recipientWallet energyKwh meterId windowStartMs identity correlationId =>
    exact (Prog.wp_bind ..).mpr (Prog.wp_mono (Prog.wp_handle wp_vaultProvider _ []) fun _ _ _ => trivial)

/-! ## The latest version -/

/-- The key of the latest version. -/
def Current (T : Transit) (w : VaultWorld) (keyName : String) (pk : Pubkey) : Prop :=
  ∃ key, w.keys.get? keyName = some key ∧ T.publicKey key.latest = pk

/-- A call leaves the keys of the engine alone. -/
theorem serveClient_keys (w : VaultWorld) (c : ClientCall) (proposed : c.Answer) :
    (serveClient T w c proposed).2.keys = w.keys := by
  cases c <;> rfl

/-- The latest version of a key is the same until the key is rotated. -/
theorem Current.step {p q : VaultPool} {l : VaultLabel} {pk : Pubkey} (h : Current T p.world keyName pk)
    (hs : Pool.Step (vault T) p l q) (hl : ∀ pair, l ≠ .env (.rotate keyName pair)) : Current T q.world keyName pk := by
  obtain ⟨key, hkey, hpk⟩ := h
  refine ⟨key, ?_, hpk⟩
  cases hs with
  | deliver t m hn => exact hkey
  | @call t m c k r hc =>
    show (serveClient T p.world c r).2.keys.get? keyName = some key
    rw [serveClient_keys, hkey]
  | @env w e he =>
    cases e with
    | create name pair =>
      simp only [vault, VaultWorld.move] at he
      split at he
      · cases he
      · rename_i hnone
        cases he
        rw [KeyMap.get?_insert_of_ne, hkey]
        rintro rfl
        rw [hnone] at hkey
        cases hkey
    | rotate name pair =>
      simp only [vault, VaultWorld.move, Option.map_eq_some_iff] at he
      obtain ⟨old, -, rfl⟩ := he
      rw [KeyMap.get?_insert_of_ne, hkey]
      rintro rfl
      exact hl pair rfl

/-! ## Runs -/

theorem standing_snoc (keyName : String) (log : VaultLog) (l : VaultLabel) :
    standing keyName (log ++ [l]) = (standing keyName log).next keyName l := by
  simp [standing]

/-- What every state of such a run satisfies: the key that a call fetched since the last rotation and is about to cache is the
latest version's, and so is a cached key that was fetched since. -/
structure KeysInv (T : Transit) (p : VaultPool) : Prop where
  fetched : ∀ t keyName keys pk, t ∈ (standing keyName p.log).fetched →
    (traceOf t p.log).getLast? = some ⟨.getKey keyName, .ok keys⟩ → T.firstKey keyName keys = .ok pk →
    Current T p.world keyName pk
  cached : ∀ keyName pk, (standing keyName p.log).fresh = true → p.world.keyCache.get? keyName = some pk →
    Current T p.world keyName pk

theorem keysInv_init (keys : KeyMap String TransitKey) : KeysInv T (Pool.init (.start keys)) where
  fetched := fun t keyName keys pk ht => by cases ht
  cached := fun keyName pk hfresh => by cases hfresh

/-- An answer of the engine with the latest version first is read as the latest version's key. -/
theorem current_of_serveKey (hT : T.Lawful) {w : VaultWorld} {log : VaultLog} {t : Nat}
    {proposed : Except String (List (String × String))} {keys : List (String × String)} {pk : Pubkey}
    (hkeys : serveKey T w keyName proposed = .ok keys) (hc : LatestRead T w log (.call t ⟨.getKey keyName, .ok keys⟩))
    (hfirst : T.firstKey keyName keys = .ok pk) : Current T w keyName pk := by
  cases hkey : w.keys.get? keyName with
  | none =>
    unfold serveKey at hkeys
    rw [hkey] at hkeys
    cases proposed <;> cases hkeys
  | some key =>
    refine ⟨key, hkey, ?_⟩
    rw [firstKey_of_latest hT (hc key hkey)] at hfirst
    exact Except.ok.inj hfirst

/-- Where a fetch that counts comes from: it is the step's own, or it was there before and the step is no rotation. -/
theorem fetched_snoc {log : VaultLog} {l : VaultLabel} {t : Nat} {keys : List (String × String)}
    (ht : t ∈ (standing keyName (log ++ [l])).fetched)
    (hlast : (traceOf t (log ++ [l])).getLast? = some ⟨.getKey keyName, .ok keys⟩) :
    l = .call t ⟨.getKey keyName, .ok keys⟩ ∨ t ∈ (standing keyName log).fetched ∧
      (traceOf t log).getLast? = some ⟨.getKey keyName, .ok keys⟩ ∧ ∀ pair, l ≠ .env (.rotate keyName pair) := by
  rw [standing_snoc] at ht
  cases l with
  | deliver t' m =>
    rw [Pool.traceOf_snoc_deliver] at hlast
    exact Or.inr ⟨ht, hlast, fun pair h => (by cases h)⟩
  | env e =>
    rw [Pool.traceOf_snoc_env] at hlast
    cases e with
    | create name pair => exact Or.inr ⟨ht, hlast, fun pair h => (by cases h)⟩
    | rotate name pair =>
      simp only [Standing.next] at ht
      split at ht
      · cases ht
      · rename_i hne
        refine Or.inr ⟨ht, hlast, ?_⟩
        rintro pair' h
        cases h
        exact hne rfl
  | call t' e =>
    by_cases htt : t' = t
    · subst htt
      rw [Pool.traceOf_snoc_self, List.getLast?_concat, Option.some.injEq] at hlast
      exact Or.inl (hlast ▸ rfl)
    · rw [Pool.traceOf_snoc_other htt] at hlast
      refine Or.inr ⟨?_, hlast, fun pair h => (by cases h)⟩
      obtain ⟨c, a⟩ := e
      cases c with
      | getKey name =>
        simp only [Standing.next] at ht
        split at ht
        · exact (List.mem_cons.mp ht).resolve_left (Ne.symm htt)
        · exact ht
      | cacheInsert name pk =>
        simp only [Standing.next] at ht
        split at ht <;> exact ht
      | _ => exact ht

/-- Where a fresh cached key comes from: a call that had fetched it stores it, or it was there before and the step neither rotates
the key nor stores another. -/
theorem fresh_snoc {log : VaultLog} {l : VaultLabel} (h : (standing keyName (log ++ [l])).fresh = true) :
    (∃ t pk, l = .call t ⟨.cacheInsert keyName pk, ()⟩ ∧ t ∈ (standing keyName log).fetched) ∨
      (standing keyName log).fresh = true ∧ (∀ pair, l ≠ .env (.rotate keyName pair)) ∧
        ∀ t pk, l ≠ .call t ⟨.cacheInsert keyName pk, ()⟩ := by
  rw [standing_snoc] at h
  cases l with
  | deliver t m => exact Or.inr ⟨h, fun pair hl => (by cases hl), fun t pk hl => (by cases hl)⟩
  | env e =>
    refine Or.inr ?_
    cases e with
    | create name pair => exact ⟨h, fun pair hl => (by cases hl), fun t pk hl => (by cases hl)⟩
    | rotate name pair =>
      simp only [Standing.next] at h
      split at h
      · cases h
      · rename_i hne
        refine ⟨h, ?_, fun t pk hl => (by cases hl)⟩
        rintro pair' hl
        cases hl
        exact hne rfl
  | call t e =>
    obtain ⟨c, a⟩ := e
    cases c with
    | cacheInsert name pk =>
      simp only [Standing.next] at h
      split at h
      · rename_i heq
        subst heq
        exact Or.inl ⟨t, pk, rfl, of_decide_eq_true h⟩
      · rename_i hne
        refine Or.inr ⟨h, fun pair hl => (by cases hl), ?_⟩
        rintro t' pk' hl
        cases hl
        exact hne rfl
    | getKey name =>
      refine Or.inr ⟨?_, fun pair hl => (by cases hl), fun t pk hl => (by cases hl)⟩
      simp only [Standing.next] at h
      split at h <;> exact h
    | _ => exact Or.inr ⟨h, fun pair hl => (by cases hl), fun t pk hl => (by cases hl)⟩

/-- Only an insertion changes the cache. -/
theorem keyCache_of_step {p q : VaultPool} {l : VaultLabel} (hs : Pool.Step (vault T) p l q)
    (hl : ∀ t pk, l ≠ .call t ⟨.cacheInsert keyName pk, ()⟩) :
    q.world.keyCache.get? keyName = p.world.keyCache.get? keyName := by
  cases hs with
  | deliver t m hn => rfl
  | @call t m c k r hc =>
    cases c with
    | cacheInsert name pk =>
      refine KeyMap.get?_insert_of_ne _ _ ?_
      rintro rfl
      exact hl t pk rfl
    | _ => rfl
  | @env w e he =>
    cases e with
    | create name pair =>
      simp only [vault, VaultWorld.move] at he
      split at he <;> cases he
      rfl
    | rotate name pair =>
      simp only [vault, VaultWorld.move, Option.map_eq_some_iff] at he
      obtain ⟨old, -, rfl⟩ := he
      rfl

/-- A key that a step reads is the latest version's. -/
theorem current_of_learns (hT : T.Lawful) {p q : VaultPool} {t : Nat} {e : ClientEvent} {pk : Pubkey} (hp : KeysInv T p)
    (hc : LatestRead T p.world p.log (.call t e)) (hs : Pool.Step (vault T) p (.call t e) q) (he : Learns T keyName pk e) :
    Current T q.world keyName pk := by
  have hbefore : Current T p.world keyName pk := by
    obtain rfl | ⟨keys, rfl, hfirst⟩ := he
    · obtain ⟨m, k, r, -, hanswer, -⟩ := hs.call_inv
      exact hp.cached keyName pk hc hanswer.symm
    · obtain ⟨m, k, r, -, hanswer, -⟩ := hs.call_inv
      exact current_of_serveKey hT hanswer.symm hc hfirst
  exact hbefore.step hs fun pair h => (by cases h)

/-- A key that is cached was fetched by the call right before. -/
theorem fetched_of_cacheInsert {C : VaultWorld → VaultLog → VaultLabel → Prop} {w : VaultWorld} {p q : VaultPool} {t : Nat}
    {pk : Pubkey} (hr : Pool.Reach (vault T) C (Pool.init w) p)
    (hs : Pool.Step (vault T) p (.call t ⟨.cacheInsert keyName pk, ()⟩) q) :
    ∃ keys, (traceOf t p.log).getLast? = some ⟨.getKey keyName, .ok keys⟩ ∧ T.firstKey keyName keys = .ok pk := by
  obtain ⟨m, k, r, hth, -⟩ := hs.call_inv
  have hallowed := (Prog.wp_steps (wp_start m) (hr.steps_of_thread hth)).1
  rwa [Monitor.after_history, List.nil_append] at hallowed

theorem KeysInv.step (hT : T.Lawful) {w : VaultWorld} {p q : VaultPool} {l : VaultLabel}
    (hr : Pool.Reach (vault T) (LatestRead T) (Pool.init w) p) (hp : KeysInv T p) (hc : LatestRead T p.world p.log l)
    (hs : Pool.Step (vault T) p l q) : KeysInv T q := by
  constructor
  · intro t keyName keys pk ht hlast hfirst
    rw [hs.log_eq] at ht hlast
    rcases fetched_snoc ht hlast with rfl | ⟨ht', hlast', hl⟩
    · exact current_of_learns hT hp hc hs (Or.inr ⟨keys, rfl, hfirst⟩)
    · exact (hp.fetched t keyName keys pk ht' hlast' hfirst).step hs hl
  · intro keyName pk hfresh hcached
    rw [hs.log_eq] at hfresh
    rcases fresh_snoc hfresh with ⟨t, pk', rfl, ht⟩ | ⟨hfresh', hl, hins⟩
    · obtain ⟨keys, hlast, hfirst⟩ := fetched_of_cacheInsert hr hs
      have hpk : pk' = pk := by
        obtain ⟨m, k, r, -, -, hworld⟩ := hs.call_inv
        rw [hworld] at hcached
        exact Option.some.inj ((KeyMap.get?_insert_self ..).symm.trans hcached)
      subst hpk
      exact (hp.fetched t keyName keys pk' ht hlast hfirst).step hs fun pair h => (by cases h)
    · rw [keyCache_of_step hs hins] at hcached
      exact (hp.cached keyName pk hfresh' hcached).step hs hl

theorem keysInv_of_reach (hT : T.Lawful) {keys : KeyMap String TransitKey} {p : VaultPool}
    (h : Pool.Reach (vault T) (LatestRead T) (Pool.init (.start keys)) p) : KeysInv T p := by
  induction h with
  | refl => exact keysInv_init keys
  | step hr hc hs ih => exact ih.step hT hr hc hs

/-- A key that was learned is the latest version's until the key is rotated. -/
theorem current_since (hT : T.Lawful) {keys : KeyMap String TransitKey} {p : VaultPool} {t : Nat} {e : ClientEvent} {pk : Pubkey}
    {before after : VaultLog} (h : Pool.Reach (vault T) (LatestRead T) (Pool.init (.start keys)) p)
    (hlog : p.log = before ++ .call t e :: after) (he : Learns T keyName pk e)
    (hrot : ∀ pair, .env (.rotate keyName pair) ∉ after) : Current T p.world keyName pk := by
  refine h.since hlog (P := fun w => Current T w keyName pk) (fun p q hr hc hs => ?_) fun p l q hl hs hp => ?_
  · exact current_of_learns hT (keysInv_of_reach hT hr) hc hs he
  · exact hp.step hs fun pair heq => hrot pair (heq ▸ hl)

/-! ## The mint -/

/-- What is known when the mint submits a transaction: the payer it asked for, before the signature of the same key. -/
def MintSends (Γ : Ctx) (past : List CallEvent) : Call → Prop
  | .sendTransaction tx => ∃ payer sig instructions serialized decoded before middle after,
    past = before ++ ⟨.getPublicKey Γ.transitKeyName, .ok payer⟩ ::
      (middle ++ ⟨.signMessage Γ.transitKeyName (Γ.messageData tx.message), .ok sig⟩ :: after) ∧
    Γ.serialize (.newUnsigned (Γ.messageNew instructions payer)) = .ok serialized ∧ Γ.deserialize serialized = .ok decoded ∧
    tx.message.accountKeys = decoded.message.accountKeys ∧ tx.signatures.head? = some sig
  | _ => True

theorem accountKeys_of_redated {tx tx' : Transaction} (h : Redated tx tx') :
    tx'.message.accountKeys = tx.message.accountKeys := by
  rcases h with rfl | ⟨-, hash, rfl⟩
  · rfl
  · rfl

/-- The signing path of a mint, after the payer was asked for. -/
theorem allows_mintSends {Γ : Ctx} {payer : Pubkey} {instructions : List Instruction} {serialized : Bytes}
    {identity : SpiffeIdentity} (h : Γ.serialize (.newUnsigned (Γ.messageNew instructions payer)) = .ok serialized) :
    Allows Γ serialized platformAdmin identity [⟨.getPublicKey Γ.transitKeyName, .ok payer⟩] (MintSends Γ) where
  calm := by
    intro past c hc
    cases c with
    | sendTransaction tx => cases hc
    | _ => trivial
  sign := fun cur tx tx' hs => trivial
  send := by
    intro cur sent hs
    cases hs with
    | unsigned hq hd hv hk => exact absurd hk (by decide)
    | signed tx tx' before after sig hs hq hcur hsent hidx =>
      subst hsent hcur
      have hkeys : tx'.message.accountKeys = tx.message.accountKeys := accountKeys_of_redated hs.redated
      exact ⟨payer, sig, instructions, serialized, tx, [], before, after, rfl, h, hs.decoded, hkeys, rfl⟩

theorem wp_mintSends (Γ : Ctx) (recipientWallet : String) (energyKwh : UInt64) (meterId : Vector UInt8 16)
    (windowStartMs : Int64) (identity : SpiffeIdentity) (correlationId : String) :
    (buildAndSubmitGenerationMint Γ recipientWallet energyKwh meterId windowStartMs identity correlationId).wp
      (Monitor.history (MintSends Γ)) [] (fun _ _ => True) := by
  unfold buildAndSubmitGenerationMint
  split
  · trivial
  split
  · trivial
  refine (Prog.wp_perform_bind ..).mpr ⟨trivial, fun answer => ?_⟩
  cases answer with
  | error e => trivial
  | ok payer =>
    simp only
    split
    · trivial
    · rename_i serialized hserialized
      obtain ⟨instructions, hinstructions⟩ := serialize_of_mintTransaction hserialized
      have hA : Allows Γ serialized platformAdmin identity _ (MintSends Γ) := allows_mintSends hinstructions
      refine (Prog.wp_bind ..).mpr (wp_signAndSubmit hA correlationId fun past r => ?_)
      cases r with
      | error stage => trivial
      | ok out =>
        have hpoll : Calm (resolveConfirmation out.1) (fun _ => True) := by
          refine only_resolveConfirmation ?_ 24
          rfl
        refine (Prog.wp_bind ..).mpr ?_
        refine wp_calm hA.calm hpoll (I := fun _ => True) (fun _ _ _ _ => trivial) trivial fun _ verdict _ _ => ?_
        cases verdict <;> trivial

end VaultAux

end ChainBridge
