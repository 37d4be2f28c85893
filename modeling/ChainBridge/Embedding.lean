import ChainBridge.Lib.Handle
import ChainBridge.Solana
import ChainBridge.AgentMemory

/-!
# The remote embedding provider

`chain-bridge-api/src/agent_memory.rs`: `RemoteEmbeddingProvider` sends its texts to an embedding endpoint and reads the
vectors out of the JSON that comes back. What it asks of the HTTP client are calls; the client may fail at each of them, and
the body may be any JSON. A memory runs on the provider when its calls for an embedding are served by it. A number of a vector
is an `f64` rounded to `f32`: `asF32` is the rounding, from the bits of the former to whatever stands for the latter.
-/

namespace ChainBridge.AgentMemory

open Interleave

/-- `StatusCode`, with its text. -/
structure StatusCode where
  code : UInt16
  display : String
  deriving DecidableEq

/-- `is_success`. -/
def StatusCode.isSuccess (status : StatusCode) : Bool := decide (200 ≤ status.code ∧ status.code < 300)

/-- What the provider asks of the HTTP client, and the clock of a memory that runs on it. -/
inductive HttpCall where
  /-- `POST` with the `Authorization` header and a JSON body. -/
  | post (endpoint : String) (authorization : String) (body : Json)
  /-- `Response::text`. -/
  | text
  /-- `Response::json`. -/
  | json
  /-- `SystemTime::now`. -/
  | systemTimeNow

/-- The answers. -/
@[reducible] def HttpCall.Answer : HttpCall → Type
  | .post _ _ _ => Except String StatusCode
  | .text => Except String String
  | .json => Except String Json
  | .systemTimeNow => SystemTime

/-- A call of the provider. -/
abbrev HttpProg (α : Type) : Type := Prog HttpCall HttpCall.Answer α

/-- A call of the HTTP client with its answer. -/
abbrev HttpEvent : Type := Event HttpCall.Answer

/-- `RemoteEmbeddingProvider`; `dimension` is not looked at. -/
structure RemoteEmbeddingProvider where
  apiKey : String
  modelName : String
  endpoint : String

namespace RemoteEmbeddingProvider

variable {φ : Type}

/-- The vector of an embedding array. -/
def readEmbedding (asF32 : UInt64 → φ) (embVal : List Json) : Except String (List φ) :=
  embVal.mapM fun v =>
    match v.asF64.map asF32 with
    | some f => .ok f
    | none => .error "Invalid float in embedding"

/-- The embedding array of an item. -/
def embeddingArray (item : Json) : Option (List Json) := (item.get? "embedding").bind Json.asArray

/-- The body of the loop over the items. -/
def pushEmbedding (asF32 : UInt64 → φ) (results : List (List φ)) (item : Json) : Except MemoryError (List (List φ)) :=
  match embeddingArray item with
  | some embVal =>
    match readEmbedding asF32 embVal with
    | .ok v => .ok (results ++ [v])
    | .error e => .error (.embeddingFailed e)
  | none => .ok results

/-- What `get_embeddings` makes of the body. -/
def extractEmbeddings (asF32 : UInt64 → φ) (parsed : Json) : Except MemoryError (List (List φ)) := do
  let results ← match (parsed.get? "data").bind Json.asArray with
    | some data => data.foldlM (pushEmbedding asF32) []
    | none => .ok []
  if results.isEmpty then
    .error (.embeddingFailed "No embedding data extracted from response")
  else
    .ok results

/-- `get_embeddings`. -/
def getEmbeddings (asF32 : UInt64 → φ) (p : RemoteEmbeddingProvider) (texts : List String) :
    HttpProg (Except MemoryError (List (List φ))) := do
  let body := Json.obj [("input", .arr (texts.map .str)), ("model", .str p.modelName)]
  match ← Prog.perform (HttpCall.post p.endpoint ("Bearer " ++ p.apiKey) body) with
  | .error e => return .error (.httpError e)
  | .ok status =>
    if !status.isSuccess then
      let errText : Except String String ← Prog.perform HttpCall.text
      return .error (.embeddingFailed
        ("API returned error status: " ++ status.display ++ ". Body: " ++ errText.toOption.getD ""))
    else
      match ← Prog.perform HttpCall.json with
      | .error e => return .error (.httpError e)
      | .ok parsed => return extractEmbeddings asF32 parsed

/-- `get_embedding`. -/
def getEmbedding (asF32 : UInt64 → φ) (p : RemoteEmbeddingProvider) (text : String) :
    HttpProg (Except MemoryError (List φ)) := do
  match ← p.getEmbeddings asF32 [text] with
  | .error e => return .error e
  | .ok [] => return .error (.embeddingFailed "API returned an empty embeddings array")
  | .ok (embedding :: _) => return .ok embedding

/-- The calls of a memory, served by the provider. -/
def serve (asF32 : UInt64 → φ) (p : RemoteEmbeddingProvider) : (c : MemoryCall) → HttpProg (c.Answer φ)
  | .getEmbedding text => p.getEmbedding asF32 text
  | .systemTimeNow => Prog.perform HttpCall.systemTimeNow

end RemoteEmbeddingProvider

end ChainBridge.AgentMemory
