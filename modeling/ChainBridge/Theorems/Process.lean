import ChainBridge.Lemmas.Rpc
import ChainBridge.Lemmas.Sample

/-!
# The consumer and the gRPC service side by side

The gRPC methods read the clock and the blockhash cache of the session the handlers use, and nothing they do changes it. So the
consumer's side of the process is the bridge by itself: what is proved of every run of the bridge holds in the process, whatever
gRPC requests run between the steps of its handlers.
-/

namespace ChainBridge

open Interleave RpcAux

/-- In every run of the process the consumer's side is a run of the bridge alone, from the same session to the same session with the
same history, whatever the gRPC service does meanwhile. -/
theorem consumer_unaffected {Γ : Ctx} {R : RpcEnv} {w : Session} {x : Process} (h : Process.Reach Γ R w x) :
    Pool.Reach (bridge Γ) (fun _ _ _ => True) (Pool.init w) x.left ∧ x.left.log = Twin.leftLog x.log ∧
      x.left.world = x.right.world :=
  ⟨h.left fun _ _ _ => quiet_rpcServer, h.split.left, h.split.world⟩

namespace ProcessAux

open SampleAux

/-- A development setup: no TLS, every caller is the administrator. -/
def devEnv : RpcEnv where
  hashToString := fun _ => "8opHzTAnfzRpPEx21XtnrVTX28YQuCpAjcn1PczScKh"
  valueToString := fun _ => "null"
  dev := { chainBridgeInsecure := some "true", chainBridgeAllowHeaderAuth := none }

/-- A request without certificates and headers. -/
def plainRequest (request : RpcRequest) : RpcMessage := { peerCerts := none, headers := [], request }

/-- The answers of an environment in which everything succeeds. -/
def rpcAnswer : (c : RpcCall) → Option c.Answer
  | .shared c => answer c
  | .getBalance _ => some (.ok 1000000000)
  | .getAccount _ => some (.error "AccountNotFound: pubkey=11111111111111111111111111111111")
  | .getRecentPrioritizationFees _ => some (.ok [])
  | .getSlot => some (.ok 99)
  | .requestAirdrop _ _ => some (.ok sig)
  | .getTransaction _ => some (.ok .null)
  | .getEpochInfo => some (.ok ⟨100, 100, 1, 432000, 100, none⟩)
  | .respond _ => some ()

/-- Steps of the process asked for. -/
abbrev ProcessScript : Type := List (Pool.Action Call Call.Answer Delivery Move ⊕ Pool.Action RpcCall RpcCall.Answer RpcMessage Empty)

/-- A submit of a transaction, and between its steps a submission of the same bytes over gRPC and a read of the slot. -/
def besideScript : ProcessScript :=
  [.inl (.deliver 0 (.submit (.ok (submitOf datedTx "c" "k")))),
   .inr (.deliver 0 (plainRequest (.submitTransaction ⟨encodeTransaction datedTx, platformAdmin⟩))),
   .inr (.deliver 1 (plainRequest .getSlot))] ++
    (calls 0 4).map .inl ++ List.replicate 2 (.inr (.call 0 rpcAnswer)) ++ (calls 0 3).map .inl ++
    List.replicate 2 (.inr (.call 1 rpcAnswer)) ++ List.replicate 4 (.inr (.call 0 rpcAnswer))

/-- Whether a step asks for a signature or submits, in a handler. -/
def handlerEffect : BridgeLabel ⊕ RpcLabel → Bool
  | .inl (.call _ e) => e.1.isEffect
  | _ => false

/-- Whether a step asks for a signature or submits, in a method. -/
def methodEffect : BridgeLabel ⊕ RpcLabel → Bool
  | .inr (.call _ ⟨.shared c, _⟩) => c.isEffect
  | _ => false

/-- A run in which a handler and a method both sign and submit. -/
theorem besideRun : ∃ x, Process.Reach (ctx [datedTx]) devEnv (.fresh 1000 none) x ∧
    x.log.any handlerEffect = true ∧ x.log.any methodEffect = true := by
  have hrun : ((Twin.init (.fresh 1000 none) : Process).exec (bridge (ctx [datedTx])) (rpcServer (ctx [datedTx]) devEnv)
      besideScript).any (fun x => x.log.any handlerEffect && x.log.any methodEffect) = true := by
    decide +kernel
  obtain ⟨x, hx, htest⟩ := Twin.exists_reach_of_exec hrun
  rw [Bool.and_eq_true] at htest
  exact ⟨x, hx, htest.1, htest.2⟩

end ProcessAux

open ProcessAux SampleAux in
/-- A handler and a method that sign and submit the same transaction side by side: the handler's side is a run of the bridge. -/
theorem consumer_unaffected_beside : ∃ x, Process.Reach (ctx [datedTx]) devEnv (.fresh 1000 none) x ∧
    x.log.any handlerEffect = true ∧ x.log.any methodEffect = true ∧
    Pool.Reach (bridge (ctx [datedTx])) (fun _ _ _ => True) (Pool.init (.fresh 1000 none)) x.left := by
  obtain ⟨x, hx, hhandler, hmethod⟩ := besideRun
  exact ⟨x, hx, hhandler, hmethod, (consumer_unaffected hx).1⟩

end ChainBridge
