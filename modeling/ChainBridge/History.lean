import ChainBridge.Claims
import ChainBridge.Protocol

/-!
# What a history says

A history is the list of labels of a run. The statements about runs read from it which delivery a handler has, which claim it
holds, which submissions were accepted, and what each step means for the claim protocol.
-/

namespace ChainBridge

open Interleave

/-- A history of the bridge, oldest label first. -/
abbrev History : Type := List BridgeLabel

/-- The delivery a handler was started with. -/
def messageOf (t : Nat) (log : History) : Option Delivery :=
  log.findSome? fun
    | .deliver t' m => if t' = t then some m else none
    | _ => none

/-- The key a handler claims. -/
def keyOf (t : Nat) (log : History) : Option String := (messageOf t log).bind Delivery.key

/-- The claim held after one more call: a claim that goes through is held until its key is inserted or removed. -/
def nextClaim (held : Option (String × Nat)) : CallEvent → Option (String × Nat)
  | ⟨.claim (some key) _ nowMs, none⟩ => some (key, nowMs)
  | ⟨.dedupInsert _ _, _⟩ => none
  | ⟨.dedupRemove _, _⟩ => none
  | _ => held

/-- The claim a handler is still between, after these calls: its key and the clock reading of the claim. -/
def heldClaim (calls : List CallEvent) : Option (String × Nat) := calls.foldl nextClaim none

/-- The record a step writes to the store under a key, with its writer. -/
def writeOf (key : String) : BridgeLabel → Option (Nat × DedupRecord)
  | .call t ⟨.claim (some key') _ nowMs, none⟩ => if key' = key then some (t, claimAt nowMs) else none
  | .call t ⟨.dedupInsert key' rec, _⟩ => if key' = key then some (t, rec) else none
  | _ => none

/-- The last record written under a key, with its writer. -/
def lastWrite (key : String) (log : History) : Option (Nat × DedupRecord) := (log.filterMap (writeOf key)).getLast?

/-- The handler whose claim of a key a step lets through. -/
def claimantOf (key : String) : BridgeLabel → Option Nat
  | .call t ⟨.claim (some key') _ _, none⟩ => if key' = key then some t else none
  | _ => none

/-- The handler whose claim of a key went through last. -/
def lastClaimant (key : String) (log : History) : Option Nat := (log.filterMap (claimantOf key)).getLast?

/-- The handler of an accepted submission. -/
def acceptedBy : BridgeLabel → Option Nat
  | .call t ⟨.sendTransaction _, .ok _⟩ => some t
  | _ => none

/-- The handlers whose submissions were accepted, one for each submission. -/
def acceptedSends (log : History) : List Nat := log.filterMap acceptedBy

/-- The accepted submissions for a key. -/
def acceptedFor (key : Option String) (log : History) : List Nat :=
  (acceptedSends log).filter fun t => decide (keyOf t log = key)

/-- What a step means for the claim protocol. -/
def eventOf (log : History) : BridgeLabel → ClaimEvent
  | .call t ⟨.claim (some key) _ nowMs, none⟩ => .claimed t key nowMs
  | .call t ⟨.sendTransaction _, .ok _⟩ =>
    match keyOf t log with
    | some key => .accepted t key
    | none => .quiet
  | .call t ⟨.dedupInsert key rec, _⟩ => .recorded t key rec
  | .call t ⟨.dedupRemove key, _⟩ => .released t key
  | .env (.sweep nowMs) => .swept nowMs
  | .env .reconnect => .restarted
  | _ => .quiet

/-- A handler with its progress in place of its program, beside the session and the history. -/
abbrev BridgeView : Type := View Call.Answer Session Delivery Move Progress

/-- The claim a handler holds, with whether a submission was accepted. -/
def Progress.holding (s : Progress) : Option Holding :=
  match s.key, s.stage with
  | some key, .holding nowMs => some ⟨key, nowMs, false⟩
  | some key, .accepted nowMs _ => some ⟨key, nowMs, true⟩
  | _, _ => none

/-- The claims of a view. -/
def claimsOf (v : BridgeView) : Claims where
  clock := v.world.clock
  store := v.world.dedupStore
  holder := fun t => (v.phase t).bind Progress.holding

end ChainBridge
