import ChainBridge.Theorems.Vault

/-!
# The format of a Vault signature

Vault answers a sign request with `vault:v<N>:<base64>`. The client, and its fork in `vault_signer.rs`, look only at what
stands after the last colon: they decode it and check its length. What stands before is not looked at, so a text without the
marker of a version is taken for a signature too.
-/

namespace ChainBridge

open Interleave

/-- The format: `vault:v`, the digits of a version, a colon and the signature in base64. -/
def VaultText (s : String) (sig : Signature) : Prop :=
  ∃ version : List Char, version ≠ [] ∧ (∀ c ∈ version, c.isDigit = true) ∧
    s.toList = "vault:v".toList ++ version ++ ':' :: Base64.encode sig.bytes.toList

/-- The client accepts a text in the answer of the sign endpoint exactly for the signature whose format it is. -/
def AcceptsExactly (T : Transit) (keyName : String) (message : Bytes) (s : String) : Prop :=
  ∀ sig, Prog.Exec (signMessage T keyName message) [⟨.postSign keyName (T.base64Encode message), .ok s⟩] (.ok sig) ↔
    VaultText s sig

/-- Before its last colon the text has `vault:v` and the digits of a version. -/
def VersionMarked (s : String) : Prop :=
  ∃ version rest : List Char, version ≠ [] ∧ (∀ c ∈ version, c.isDigit = true) ∧ ':' ∉ rest ∧
    s.toList = "vault:v".toList ++ version ++ ':' :: rest

/-- After its last colon, or on the whole if it has none, the text is the base64 of 64 bytes. -/
def EndsInSignature (s : String) : Prop :=
  ∃ sig : Signature, lastPart ':' s = some (String.ofList (Base64.encode sig.bytes.toList))

namespace VaultAux

/-- The base64 of the client is the standard one, with padding. -/
def StandardBase64 (T : Transit) : Prop := ∀ s bytes, T.base64Decode s = .ok bytes ↔ Base64.decode s.toList = some bytes

theorem colon_not_mem_encode (bytes : Bytes) : ':' ∉ Base64.encode bytes :=
  Base64.not_mem_encode (by decide) (by decide) bytes

/-- What stands after a colon, if no other colon follows. -/
theorem lastPart_of_toList {s : String} {before rest : List Char} (hs : s.toList = before ++ ':' :: rest) (hrest : ':' ∉ rest) :
    lastPart ':' s = some (String.ofList rest) := by
  rw [lastPart, hs, List.splitOn_append_cons_self, List.splitOn_eq_singleton hrest, List.getLast?_concat, Option.map_some]

theorem exists_lastPart (s : String) : ∃ part, lastPart ':' s = some part := by
  rw [lastPart, List.getLast?_eq_some_getLast (List.splitOn_ne_nil ':' s.toList)]
  exact ⟨_, rfl⟩

theorem tryFrom_eq_some_iff {bytes : Bytes} {sig : Signature} : Signature.tryFrom bytes = some sig ↔ bytes = sig.bytes.toList := by
  constructor
  · intro h
    unfold Signature.tryFrom at h
    split at h
    · cases h
      rfl
    · cases h
  · rintro rfl
    exact Signature.tryFrom_toList sig

/-- The parser reads a signature exactly out of the texts that end in its base64. -/
theorem parseSignature_eq_ok_iff {T : Transit} (hT : StandardBase64 T) {s : String} {sig : Signature} :
    T.parseSignature s = .ok sig ↔ lastPart ':' s = some (String.ofList (Base64.encode sig.bytes.toList)) := by
  obtain ⟨part, hpart⟩ := exists_lastPart s
  have htext : part = String.ofList (Base64.encode sig.bytes.toList) ↔ part.toList = Base64.encode sig.bytes.toList := by
    constructor
    · rintro rfl
      exact String.toList_ofList
    · intro h
      rw [← h, String.ofList_toList]
  rw [hpart, Option.some.injEq, htext, ← Base64.decode_eq_some_iff, ← hT]
  unfold Transit.parseSignature
  simp only [hpart]
  cases T.base64Decode part with
  | error e => simp
  | ok bytes =>
    simp only [Except.ok.injEq]
    rw [← tryFrom_eq_some_iff]
    cases Signature.tryFrom bytes <;> simp

theorem exec_signMessage_iff {T : Transit} {keyName : String} {message : Bytes} {s : String} {sig : Signature} :
    Prog.Exec (signMessage T keyName message) [⟨.postSign keyName (T.base64Encode message), .ok s⟩] (.ok sig) ↔
      T.parseSignature s = .ok sig := by
  rw [signMessage, Prog.exec_perform_cons]
  exact Prog.exec_ret.trans (and_iff_right rfl)

/-- A text of the format has the marker of a version and ends in the signature. -/
theorem vaultText_iff {s : String} {sig : Signature} :
    VaultText s sig ↔ VersionMarked s ∧ lastPart ':' s = some (String.ofList (Base64.encode sig.bytes.toList)) := by
  constructor
  · rintro ⟨version, hne, hdigits, hs⟩
    exact ⟨⟨version, _, hne, hdigits, colon_not_mem_encode _, hs⟩, lastPart_of_toList hs (colon_not_mem_encode _)⟩
  · rintro ⟨⟨version, rest, hne, hdigits, hrest, hs⟩, hlast⟩
    rw [lastPart_of_toList hs hrest, Option.some.injEq, String.ofList_inj] at hlast
    exact ⟨version, hne, hdigits, hlast ▸ hs⟩

end VaultAux

open VaultAux in
/-- The client accepts a text exactly by its format if and only if the text has the marker of a version before its last colon,
or does not end in the base64 of 64 bytes. -/
theorem accepts_exactly_iff (T : Transit) (hT : StandardBase64 T) (keyName : String) (message : Bytes) (s : String) :
    AcceptsExactly T keyName message s ↔ VersionMarked s ∨ ¬EndsInSignature s := by
  have hexact : AcceptsExactly T keyName message s ↔
      ∀ sig : Signature, lastPart ':' s = some (String.ofList (Base64.encode sig.bytes.toList)) → VersionMarked s := by
    refine forall_congr' fun sig => ?_
    rw [exec_signMessage_iff, parseSignature_eq_ok_iff hT, vaultText_iff]
    exact ⟨fun h hlast => (h.mp hlast).1, fun h => ⟨fun hlast => ⟨h hlast, hlast⟩, fun h => h.2⟩⟩
  rw [hexact]
  constructor
  · intro h
    by_cases hends : EndsInSignature s
    · obtain ⟨sig, hlast⟩ := hends
      exact Or.inl (h sig hlast)
    · exact Or.inr hends
  · rintro (hmarked | hends) sig hlast
    · exact hmarked
    · exact (hends ⟨sig, hlast⟩).elim

namespace VaultAux

/-- The base64 of 64 zero bytes. -/
def zeroText : List Char := Base64.encode Signature.default.bytes.toList

theorem standardBase64_transit : StandardBase64 transit := by
  intro s bytes
  show base64DecodeText s = .ok bytes ↔ _
  unfold base64DecodeText
  cases Base64.decode s.toList <;> simp

theorem colon_not_mem_zeroText : ':' ∉ zeroText := colon_not_mem_encode _

theorem not_versionMarked_zeroText : ¬VersionMarked (String.ofList zeroText) := by
  rintro ⟨version, rest, -, -, -, hs⟩
  rw [String.toList_ofList] at hs
  refine colon_not_mem_zeroText ?_
  rw [hs]
  exact List.mem_append_right _ List.mem_cons_self

theorem lastPart_zeroText : lastPart ':' (String.ofList zeroText) = some (String.ofList zeroText) := by
  rw [lastPart, String.toList_ofList, List.splitOn_eq_singleton colon_not_mem_zeroText]
  rfl

end VaultAux

open VaultAux in
/-- A text as Vault writes it, of the third version of a key. -/
theorem accepts_exactly_v3 : AcceptsExactly transit "gridtokenx-bridge" [] (String.ofList ("vault:v3:".toList ++ zeroText)) := by
  refine (accepts_exactly_iff transit standardBase64_transit "gridtokenx-bridge" [] _).mpr (Or.inl ⟨['3'], zeroText, ?_, ?_,
    colon_not_mem_zeroText, ?_⟩)
  · exact List.cons_ne_nil _ _
  · simp
  · rw [String.toList_ofList]
    rfl

open VaultAux in
/-- The parser does not accept exactly its format: 64 zero bytes in base64, with nothing before them, are a signature to it. -/
theorem bare_base64_accepted : ¬∀ (T : Transit) (keyName : String) (message : Bytes) (s : String), StandardBase64 T →
    AcceptsExactly T keyName message s := by
  intro hall
  have hparsed : transit.parseSignature (String.ofList zeroText) = .ok Signature.default :=
    (parseSignature_eq_ok_iff standardBase64_transit).mpr lastPart_zeroText
  have hformat := (hall transit "gridtokenx-bridge" [] (String.ofList zeroText) standardBase64_transit _).mp
    (exec_signMessage_iff.mpr hparsed)
  exact not_versionMarked_zeroText (vaultText_iff.mp hformat).1

end ChainBridge
