import ChainBridge.Session

/-!
# How a handler uses the shared maps

The order in which one handler looks its correlation id up, claims its key, signs, submits and finishes, as a monitor of its
calls. `Lemmas.Protocol` shows that every handler keeps it, so a fact about all handlers side by side is proved with a handler
reduced to its `Progress`.
-/

namespace ChainBridge

open Interleave

/-- Where a handler stands with its claim. -/
inductive Stage where
  /-- No claim yet. -/
  | gates
  /-- Its claim at this reading went through and no submission was accepted. -/
  | holding (nowMs : Nat)
  /-- Its claim went through and a submission was accepted. -/
  | accepted (nowMs : Nat) (sig : Signature)
  /-- It has finished its claim, or will never make one. -/
  | closed
  /-- Its claim was answered with an earlier result. -/
  | answered (prior : TxResultMessage)
  deriving DecidableEq

/-- What matters of a handler's past: its key and correlation id, its last clock reading, whether it looked its correlation id up
and did not find it, whether it recorded its correlation id, and where it stands with its claim. -/
structure Progress where
  key : Option String
  correlationId : String
  reading : Nat
  looked : Bool
  cached : Bool
  stage : Stage

/-- The key a delivery's handler claims: none when it claims nothing or its idempotency key is empty. -/
def Delivery.key : Delivery → Option String
  | .submit (.ok envelope) => dedupKey .submit envelope.idempotencyKey
  | .mint (.ok envelope) => dedupKey .mint envelope.idempotencyKey
  | _ => none

/-- The correlation id of a delivery, empty when its payload does not parse. -/
def Delivery.correlationId : Delivery → String
  | .submit (.ok envelope) => envelope.correlationId
  | .cancel (.ok envelope) => envelope.correlationId
  | .mint (.ok envelope) => envelope.correlationId
  | .status (.ok envelope) => envelope.correlationId
  | _ => ""

/-- A handler before its first call: only a submit or a mint makes a claim. -/
def Progress.start (d : Delivery) : Progress where
  key := d.key
  correlationId := d.correlationId
  reading := 0
  looked := false
  cached := false
  stage := match d with
    | .submit _ => .gates
    | .mint _ => .gates
    | _ => .closed

/-- The calls of a handler whose claim was answered: it publishes the answer and acknowledges. -/
def allowAnswered (prior : TxResultMessage) : Call → Prop
  | .publish _ reply => reply = .tx prior ∨ reply = .mint (mintReplay prior)
  | .ack _ => True
  | _ => False

/-- The calls a handler may make otherwise. It claims its own key once, at its last reading and after the lookup; it signs and
submits while it holds the claim; it records an accepted submission under its key; it removes its key when none was accepted,
and a mint also when the accepted one is not confirmed; and a cancellation reports success after it recorded the id. -/
def allowOpen (Γ : Ctx) (s : Progress) : Call → Prop
  | .claim key correlationId nowMs =>
    s.stage = .gates ∧ key = s.key ∧ correlationId = s.correlationId ∧ nowMs = s.reading ∧ s.looked = true
  | .signMessage _ _ => ∃ nowMs, s.stage = .holding nowMs
  | .sendTransaction _ => s.looked = true ∧ ∃ nowMs, s.stage = .holding nowMs
  | .dedupInsert key rec => s.key = some key ∧
    ∃ nowMs sig slot, s.stage = .accepted nowMs sig ∧ rec = doneAt nowMs (Γ.signatureToString sig) slot
  | .dedupRemove key => s.key = some key ∧
    ((∃ nowMs, s.stage = .holding nowMs) ∨ (∃ nowMs sig, s.stage = .accepted nowMs sig) ∧ ∃ a, dedupKey .mint a = some key)
  | .publish _ (.cancel r) => r.success = true → s.cached = true ∧ r.correlationId = s.correlationId
  | _ => True

/-- The calls a handler may make. -/
def Progress.allow (Γ : Ctx) (s : Progress) (c : Call) : Prop :=
  match s.stage with
  | .answered prior => allowAnswered prior c
  | _ => allowOpen Γ s c

/-- The progress after a call and its answer. -/
def Progress.next (s : Progress) : (c : Call) → c.Answer → Progress
  | .now, reading => { s with reading }
  | .cacheContains key, found =>
    { s with looked := s.looked || (decide (key = s.correlationId) && !found) }
  | .cacheInsert key _, _ => { s with cached := s.cached || decide (key = s.correlationId) }
  | .claim _ _ nowMs, none => { s with stage := .holding nowMs }
  | .claim _ _ _, some prior => { s with stage := .answered prior }
  | .sendTransaction _, .ok sig =>
    match s.stage with
    | .holding nowMs => { s with stage := .accepted nowMs sig }
    | _ => s
  | .dedupInsert _ _, _ => { s with stage := .closed }
  | .dedupRemove _, _ => { s with stage := .closed }
  | _, _ => s

/-- The monitor of the handlers. A handler that is dropped makes no more calls. -/
def protocol (Γ : Ctx) : Watch Call Call.Answer Delivery Progress where
  allow := Progress.allow Γ
  next := Progress.next
  start := Progress.start
  cut := fun s => { s with stage := .closed }

end ChainBridge
