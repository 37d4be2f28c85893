/-!
# The Solana data the bridge handles

Hashes, keys, signatures and legacy transactions, as `solana_sdk` has them. The signing path reads and writes these fields
directly; it never sanitizes a transaction, so nothing relates the number of signatures, the number of account keys and the
number of required signatures.
-/

namespace ChainBridge

/-- A byte string. -/
abbrev Bytes : Type := List UInt8

/-- A 32-byte block hash. -/
structure Hash where
  bytes : Vector UInt8 32
  deriving DecidableEq

/-- `Hash::default()`: the all-zero hash, which marks a transaction without a recent blockhash. -/
def Hash.default : Hash := ⟨Vector.replicate 32 0⟩

/-- A 32-byte Ed25519 public key. -/
structure Pubkey where
  bytes : Vector UInt8 32
  deriving DecidableEq

/-- A 64-byte Ed25519 signature. -/
structure Signature where
  bytes : Vector UInt8 64
  deriving DecidableEq

/-- `Signature::default()`: the all-zero signature, which fills an unsigned slot. -/
def Signature.default : Signature := ⟨Vector.replicate 64 0⟩

/-- The counts at the head of a message. -/
structure MessageHeader where
  numRequiredSignatures : UInt8
  numReadonlySignedAccounts : UInt8
  numReadonlyUnsignedAccounts : UInt8
  deriving DecidableEq

/-- An instruction of a message, its program and accounts named by their index among the account keys. -/
structure CompiledInstruction where
  programIdIndex : UInt8
  accounts : Bytes
  data : Bytes
  deriving DecidableEq

/-- The part of a transaction that is signed. -/
structure Message where
  header : MessageHeader
  accountKeys : List Pubkey
  recentBlockhash : Hash
  instructions : List CompiledInstruction
  deriving DecidableEq

/-- A legacy transaction: the signatures, slot by slot, and the message. -/
structure Transaction where
  signatures : List Signature
  message : Message
  deriving DecidableEq

/-- The required signatures of a message, as the signing path counts them. -/
def Message.numRequired (m : Message) : Nat := m.header.numRequiredSignatures.toNat

/-- `Transaction::new_unsigned`: every required slot holds the default signature. -/
def Transaction.newUnsigned (m : Message) : Transaction :=
  { signatures := List.replicate m.numRequired Signature.default, message := m }

/-- A transaction with another recent blockhash. -/
def Transaction.withBlockhash (tx : Transaction) (h : Hash) : Transaction :=
  { tx with message := { tx.message with recentBlockhash := h } }

/-- An account an instruction names before its message is compiled. -/
structure AccountMeta where
  pubkey : Pubkey
  isSigner : Bool
  isWritable : Bool
  deriving DecidableEq

/-- An instruction before its message is compiled. -/
structure Instruction where
  programId : Pubkey
  accounts : List AccountMeta
  data : Bytes
  deriving DecidableEq

/-- What a simulation answers: the transaction error, if there is one, by its debug text, and the compute units. -/
structure SimulationResult where
  err : Option String
  unitsConsumed : Option Nat
  deriving DecidableEq

/-- A JSON value as `serde_json` has it: a number is an unsigned or negative 64-bit integer, or a float (by its bits). -/
inductive Json where
  | null
  | bool (b : Bool)
  | posInt (n : UInt64)
  | negInt (n : Int64)
  | float (bits : UInt64)
  | str (s : String)
  | arr (items : List Json)
  | obj (fields : List (String × Json))

namespace Json

/-- `Value::get`: the field of an object, none for a missing field or another kind of value. -/
def get? : Json → String → Option Json
  | .obj fields, key => (fields.find? (fun f => f.1 == key)).map (·.2)
  | _, _ => none

/-- `Value::is_null`. -/
def isNull : Json → Bool
  | .null => true
  | _ => false

/-- `Value::as_u64`: the value of an unsigned integer. -/
def asU64 : Json → Option Nat
  | .posInt n => some n.toNat
  | _ => none

/-- `Value::as_f64`, by the bits of the float. -/
def asF64 : Json → Option UInt64
  | .posInt n => some n.toFloat.toBits
  | .negInt n => some n.toFloat.toBits
  | .float bits => some bits
  | _ => none

/-- `Value::as_str`: the text of a string. -/
def asStr : Json → Option String
  | .str s => some s
  | _ => none

/-- `Value::as_array`: the items of an array. -/
def asArray : Json → Option (List Json)
  | .arr items => some items
  | _ => none

end Json

end ChainBridge
