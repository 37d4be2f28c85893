import ChainBridge.Lib.Twin
import ChainBridge.Rpc

/-!
# The process

`main.rs` runs the NATS consumer and the gRPC server in one process. They share the signing service and with it the blockhash
cache and the clock; `dedup_store` and `idempotency_cache` belong to the consumer. A reconnection of the supervisor drops the
handlers of the consumer and leaves the gRPC methods running.
-/

namespace ChainBridge

open Interleave

/-- The process: the consumer on the left, the gRPC service on the right, over one session. -/
abbrev Process : Type := Twin Call.Answer RpcCall.Answer Session Delivery RpcMessage Move Empty

/-- The states of the process, from a session on. -/
abbrev Process.Reach (Γ : Ctx) (R : RpcEnv) (w : Session) (x : Process) : Prop :=
  Twin.Reach (bridge Γ) (rpcServer Γ R) (Twin.init w) x

/-- A label of the gRPC service. -/
abbrev RpcLabel : Type := Label RpcCall.Answer RpcMessage Empty

/-- A call of the handlers as a call of a method. -/
def shareEvent (e : CallEvent) : RpcEvent := ⟨.shared e.1, e.2⟩

end ChainBridge
