import ChainBridge.Lib.Handle
import ChainBridge.Lib.KeyMap
import ChainBridge.Lib.Pool
import ChainBridge.Service

/-!
# The Vault client

`vault.rs`: `VaultTransitClient`, and the Transit engine behind it. A Transit key has versions and grows by rotation; the engine
signs with the latest version, and shows all versions of a key as a map, which the client reads in whatever order the map has.
The client remembers the public key it read first and never forgets it. `chain-bridge-persistence/src/vault_signer.rs` has the
same client again, line by line.

The client is a program over the calls to its cache and to the engine, so a rotation can come between any two of them. The
bridge's own calls of `get_public_key` and `sign_message` are served by these programs.
-/

namespace ChainBridge

open Interleave

/-- An Ed25519 key pair, by its seed. -/
structure KeyPair where
  seed : Vector UInt8 32
  deriving DecidableEq

/-- `Pubkey::try_from` bytes. -/
def Pubkey.tryFrom (bytes : Bytes) : Option Pubkey :=
  if h : bytes.length = 32 then some ⟨⟨bytes.toArray, h⟩⟩ else none

/-- `Signature::try_from` bytes. -/
def Signature.tryFrom (bytes : Bytes) : Option Signature :=
  if h : bytes.length = 64 then some ⟨⟨bytes.toArray, h⟩⟩ else none

@[simp] theorem Pubkey.tryFrom_toList (pk : Pubkey) : Pubkey.tryFrom pk.bytes.toList = some pk := by
  obtain ⟨⟨bytes, hbytes⟩⟩ := pk
  simp [Pubkey.tryFrom, Vector.toList, hbytes]

@[simp] theorem Signature.tryFrom_toList (sig : Signature) : Signature.tryFrom sig.bytes.toList = some sig := by
  obtain ⟨⟨bytes, hbytes⟩⟩ := sig
  simp [Signature.tryFrom, Vector.toList, hbytes]

/-- The context of the client: with what the bridge relies on, Ed25519 and the encoding of base64. -/
structure Transit extends Ctx where
  /-- Standard base64 encoding. -/
  base64Encode : Bytes → String
  /-- The public key of a key pair. -/
  publicKey : KeyPair → Pubkey
  /-- The signature of a message under a key pair. -/
  sign : KeyPair → Bytes → Signature
  /-- `Signature::verify`. -/
  verify : Pubkey → Bytes → Signature → Bool

/-! ## The engine -/

/-- A Transit key: its versions, the oldest first. There is always one. -/
structure TransitKey where
  versions : List KeyPair
  nonempty : versions ≠ []

/-- The version that signs. -/
def TransitKey.latest (key : TransitKey) : KeyPair := key.versions.getLast key.nonempty

/-- A rotation adds a version. -/
def TransitKey.rotate (key : TransitKey) (pair : KeyPair) : TransitKey :=
  { versions := key.versions ++ [pair], nonempty := List.append_ne_nil_of_right_ne_nil _ (List.cons_ne_nil _ _) }

/-- The versions of a key as the key endpoint shows them: version names with the public keys in base64. -/
def TransitKey.entries (T : Transit) (key : TransitKey) : List (String × String) :=
  key.versions.zipIdx.map fun v => (toString (v.2 + 1), T.base64Encode (T.publicKey v.1).bytes.toList)

/-- The answer of the sign endpoint: the latest version signs the message of the request. -/
def TransitKey.signText (T : Transit) (key : TransitKey) (message : Bytes) : String :=
  "vault:v" ++ toString key.versions.length ++ ":" ++ T.base64Encode (T.sign key.latest message).bytes.toList

/-! ## The client -/

/-- The calls of the client, and of a handler that uses it. -/
inductive ClientCall where
  /-- `key_cache.read().get`. -/
  | cacheGet (keyName : String)
  /-- `key_cache.write().insert`. -/
  | cacheInsert (keyName : String) (pk : Pubkey)
  /-- `GET transit/keys/{key_name}`: the entries of `data.keys`, in the iteration order of the map. -/
  | getKey (keyName : String)
  /-- `POST transit/sign/{key_name}` with the input in base64: `data.signature`. -/
  | postSign (keyName : String) (input : String)
  /-- `get_public_key` returns to its caller. -/
  | returnKey (result : Except String Pubkey)
  /-- `sign_message` returns to its caller. -/
  | returnSignature (result : Except String Signature)
  /-- A call of a handler to something else. -/
  | other (c : Call)

/-- The answers of the calls. -/
@[reducible] def ClientCall.Answer : ClientCall → Type
  | .cacheGet _ => Option Pubkey
  | .cacheInsert _ _ => Unit
  | .getKey _ => Except String (List (String × String))
  | .postSign _ _ => Except String String
  | .returnKey _ => Unit
  | .returnSignature _ => Unit
  | .other c => c.Answer

/-- The client, or a handler that uses it: a program over these calls. -/
abbrev Client (α : Type) : Type := Prog ClientCall ClientCall.Answer α

/-- A call with its answer. -/
abbrev ClientEvent : Type := Event ClientCall.Answer

/-- The public key of the first entry. -/
def Transit.firstKey (T : Transit) (keyName : String) (keys : List (String × String)) : Except String Pubkey :=
  match keys with
  | [] => .error ("No keys found for " ++ keyName)
  | (_, pubkeyB64) :: _ =>
    match T.base64Decode pubkeyB64 with
    | .error e => .error ("Invalid base64 in public_key: " ++ e)
    | .ok bytes =>
      match Pubkey.tryFrom bytes with
      | none => .error "Invalid public key bytes length"
      | some pk => .ok pk

/-- `get_public_key`: the cached key, or the first one the engine shows, which is then cached. -/
def getPublicKey (T : Transit) (keyName : String) : Client (Except String Pubkey) := do
  match ← Prog.perform (ClientCall.cacheGet keyName) with
  | some pk => return .ok pk
  | none =>
    match ← Prog.perform (ClientCall.getKey keyName) with
    | .error e => return .error e
    | .ok keys =>
      match T.firstKey keyName keys with
      | .error e => return .error e
      | .ok pk =>
        Prog.perform (ClientCall.cacheInsert keyName pk)
        return .ok pk

/-- The last part of a text split at a character. -/
def lastPart (sep : Char) (text : String) : Option String := (text.toList.splitOn sep).getLast?.map String.ofList

/-- The signature in an answer `vault:v<N>:<base64>`. -/
def Transit.parseSignature (T : Transit) (text : String) : Except String Signature :=
  match lastPart ':' text with
  | none => .error "Malformed signature format from Vault"
  | some sigB64 =>
    match T.base64Decode sigB64 with
    | .error _ => .error "Invalid base64 in signature"
    | .ok bytes =>
      match Signature.tryFrom bytes with
      | none => .error "Invalid signature length from Vault"
      | some sig => .ok sig

/-- `sign_message`: the engine signs the message, in base64. -/
def signMessage (T : Transit) (keyName : String) (message : Bytes) : Client (Except String Signature) := do
  match ← Prog.perform (ClientCall.postSign keyName (T.base64Encode message)) with
  | .error e => return .error e
  | .ok text => return T.parseSignature text

/-- The client behind the calls of a handler: its two functions serve the calls to Vault, the others go through. -/
def vaultProvider (T : Transit) : (c : Call) → Client c.Answer
  | .getPublicKey keyName => getPublicKey T keyName
  | .signMessage keyName message => signMessage T keyName message
  | c => Prog.perform (ClientCall.other c)

/-! ## Runs of the client -/

/-- The keys of the engine and the cache of the client. -/
structure VaultWorld where
  keys : KeyMap String TransitKey
  keyCache : KeyMap String Pubkey

/-- `VaultTransitClient::new`: a client with an empty cache, before an engine with any keys. -/
def VaultWorld.start (keys : KeyMap String TransitKey) : VaultWorld := { keys, keyCache := .empty }

/-- What runs on the client: its two functions and the generation mint. -/
inductive VaultRequest where
  | getPublicKey (keyName : String)
  | signMessage (keyName : String) (message : Bytes)
  | mint (recipientWallet : String) (energyKwh : UInt64) (meterId : Vector UInt8 16) (windowStartMs : Int64)
      (identity : SpiffeIdentity) (correlationId : String)

/-- A key is created with its first version, or rotated. -/
inductive VaultMove where
  | create (keyName : String) (pair : KeyPair)
  | rotate (keyName : String) (pair : KeyPair)

/-- The program of a request. -/
def VaultRequest.start (T : Transit) : VaultRequest → Client Unit
  | .getPublicKey keyName => do Prog.perform (ClientCall.returnKey (← ChainBridge.getPublicKey T keyName))
  | .signMessage keyName message => do
    Prog.perform (ClientCall.returnSignature (← ChainBridge.signMessage T keyName message))
  | .mint recipientWallet energyKwh meterId windowStartMs identity correlationId => do
    let _ ← (buildAndSubmitGenerationMint T.toCtx recipientWallet energyKwh meterId windowStartMs identity
      correlationId).handle (vaultProvider T)
    return ()

/-- The key endpoint: the request may fail; otherwise the versions come in the order the map happens to have. -/
def serveKey (T : Transit) (w : VaultWorld) (keyName : String) (proposed : Except String (List (String × String))) :
    Except String (List (String × String)) :=
  match proposed, w.keys.get? keyName with
  | .error e, _ => .error e
  | .ok _, none => .error "Failed to fetch key from Vault"
  | .ok order, some key => if order.isPerm (key.entries T) then .ok order else .ok (key.entries T)

/-- The sign endpoint: the request may fail; otherwise the latest version signs what the input decodes to. -/
def serveSign (T : Transit) (w : VaultWorld) (keyName input : String) (proposed : Except String String) :
    Except String String :=
  match proposed, w.keys.get? keyName, T.base64Decode input with
  | .error e, _, _ => .error e
  | .ok _, some key, .ok message => .ok (key.signText T message)
  | .ok _, _, _ => .error "Vault Transit sign request failed"

/-- The cache and the engine answer; whatever else a handler calls answers as it likes. -/
def serveClient (T : Transit) (w : VaultWorld) : (c : ClientCall) → c.Answer → c.Answer × VaultWorld
  | .cacheGet keyName, _ => (w.keyCache.get? keyName, w)
  | .cacheInsert keyName pk, _ => ((), { w with keyCache := w.keyCache.insert keyName pk })
  | .getKey keyName, proposed => (serveKey T w keyName proposed, w)
  | .postSign keyName input, proposed => (serveSign T w keyName input proposed, w)
  | .returnKey _, _ => ((), w)
  | .returnSignature _, _ => ((), w)
  | .other _, proposed => (proposed, w)

/-- A key is created once; a key that exists can be rotated. -/
def VaultWorld.move (w : VaultWorld) : VaultMove → Option VaultWorld
  | .create keyName pair =>
    match w.keys.get? keyName with
    | some _ => none
    | none => some { w with keys := w.keys.insert keyName { versions := [pair], nonempty := List.cons_ne_nil _ _ } }
  | .rotate keyName pair =>
    (w.keys.get? keyName).map fun key => { w with keys := w.keys.insert keyName (key.rotate pair) }

/-- The client and the engine as a system. -/
def vault (T : Transit) : System ClientCall ClientCall.Answer VaultWorld VaultRequest VaultMove where
  start := VaultRequest.start T
  serve := serveClient T
  env := VaultWorld.move
  cuts := fun _ => false

/-- A state of a run. -/
abbrev VaultPool : Type := Pool ClientCall ClientCall.Answer VaultWorld VaultRequest VaultMove

/-- A step of a run. -/
abbrev VaultLabel : Type := Label ClientCall.Answer VaultRequest VaultMove

/-- The history of a run, oldest step first. -/
abbrev VaultLog : Type := List VaultLabel

end ChainBridge
