import Konf.Substrate.Workflow
import Konf.Substrate.Capability

/-! # Envelopes

Model of `Envelope<Value>` (`konflux-substrate/src/envelope.rs`). The fields that no modelled
function reads (fresh ids, timestamps, payload type, QoS class, references) are left out. -/

namespace Konf.Substrate
set_option autoImplicit false

structure Envelope where
  traceId : Uuid
  actorId : String
  namespace_ : String
  capabilities : CapSet
  target : String
  payload : Json
  stepIndex : ℕ
  streamId : String
  deadline : Option ℕ
  idempotencyKey : Option String
  metadata : StrMap Json

/-- The response to an envelope: everything but the payload is inherited, the idempotency key is
cleared. -/
def Envelope.respond (env : Envelope) (payload : Json) : Envelope :=
  { env with payload := payload, stepIndex := env.stepIndex + 1, idempotencyKey := none }

def Envelope.forToolDispatch (target : String) (payload : Json) (capabilities : List String)
    (traceId : Uuid) (namespace_ actorId streamId : String) : Envelope where
  traceId := traceId
  actorId := actorId
  namespace_ := namespace_
  capabilities := CapSet.fromPatterns capabilities
  target := target
  payload := payload
  stepIndex := 0
  streamId := streamId
  deadline := none
  idempotencyKey := none
  metadata := ∅

end Konf.Substrate
