import Konf.Foundations.Json
import Konf.Foundations.Table

/-! # The tables of the memory backend

The tables `node`, `node_embedding` and `event` of `konf-tool-memory-surreal/src/schema.rs`, with the
fields that the modelled queries write or read. -/

namespace Konf.Memory
set_option autoImplicit false

inductive MemoryError
  | operationFailed (message : String)
  | validation (message : String)
  | unavailable (message : String)
  | unsupported (message : String)
deriving DecidableEq

def resolveNamespace (param : Option String) : String := param.getD "default"

abbrev RecordId : Type := ℕ

structure NodeRow where
  namespace_ : String
  nodeType : String
  content : String
  metadata : Json
  isRetracted : Bool
deriving DecidableEq

structure EmbeddingRow where
  node : RecordId
  namespace_ : String
  modelName : String
  embedding : List JsonNumber
deriving DecidableEq

structure EventRow where
  namespace_ : String
  eventType : String
  payload : Json
deriving DecidableEq

structure Store where
  nodes : Table RecordId NodeRow
  embeddings : List EmbeddingRow
  events : List EventRow

def Store.empty : Store := ⟨.empty, [], []⟩

end Konf.Memory
