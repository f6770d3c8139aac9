import Konf.Foundations.Record
import Konf.Runtime.Bisimulation
import Konf.Runtime.Dispatch

/-! # Interactions

Model of `konf-runtime/src/interaction.rs`: the envelope of the journal's `interaction` rows, how it is
written as JSON and read back. The texts of ids and instants come from other crates (`Formats`); an
error is `none`. -/

namespace Konf.Interactions
open Konf.Substrate Konf.Executor Konf.Runtime
set_option autoImplicit false

inductive InteractionKind
  | toolDispatch
  | nodeLifecycle
  | runLifecycle
  | error
  | userInput
  | llmResponse
  | productDefined (name : String)
deriving DecidableEq

structure Interaction (Instant : Type) where
  id : Uuid
  parentId : Option Uuid
  traceId : Uuid
  runId : Option RunId
  nodeId : Option String
  actor : Actor
  namespace_ : String
  target : String
  kind : InteractionKind
  attributes : Json
  edgeRulesFired : List String
  status : InteractionStatus
  summary : Option String
  timestamp : Instant
  stepIndex : UInt64
  streamId : String
  stateBeforeHash : Option StateHash
  stateAfterHash : Option StateHash
  references : List Uuid
  inReplyTo : Option Uuid

/-- The texts of ids and instants. -/
structure Formats (lib : Externals) (Instant : Type) where
  formatTime : Instant → String
  parseTime : String → Option Instant
  parse_formatTime : ∀ t, parseTime (formatTime t) = some t
  parse_formatUuid : ∀ id, lib.parseUuid (lib.formatUuid id) = some id

/-! ## Enumerations -/

open Konf.JsonCodec

namespace InteractionKind

def write : InteractionKind → Json
  | toolDispatch => .obj [("type", .str "tool_dispatch")]
  | nodeLifecycle => .obj [("type", .str "node_lifecycle")]
  | runLifecycle => .obj [("type", .str "run_lifecycle")]
  | error => .obj [("type", .str "error")]
  | userInput => .obj [("type", .str "user_input")]
  | llmResponse => .obj [("type", .str "llm_response")]
  | productDefined name => .obj [("name", .str name), ("type", .str "product_defined")]

def read (v : Json) : Option InteractionKind :=
  (v.tagged "type").bind fun (tag, content) => match tag with
    | "tool_dispatch" => content.unit toolDispatch
    | "node_lifecycle" => content.unit nodeLifecycle
    | "run_lifecycle" => content.unit runLifecycle
    | "error" => content.unit error
    | "user_input" => content.unit userInput
    | "llm_response" => content.unit llmResponse
    | "product_defined" => content.single "name" string productDefined
    | _ => none

def codec : JsonCodec InteractionKind where
  write := write
  read := read
  read_write kind := by cases kind <;> rfl

end InteractionKind

namespace InteractionStatus

def read (v : Json) : Option InteractionStatus :=
  (v.tagged "type").bind fun (tag, content) => match tag with
    | "pending" => content.unit .pending
    | "ok" => content.unit .ok
    | "failed" => content.single "error" string .failed
    | "observed" => content.unit .observed
    | _ => none

def codec : JsonCodec InteractionStatus where
  write := InteractionStatus.toJson
  read := read
  read_write status := by cases status <;> rfl

end InteractionStatus

/-- A role is written by its name, and may also be read as a variant with null for its content. -/
def roleCodec : JsonCodec ActorRole where
  write role := .str role.name
  read
    | .str name => ActorRole.parse name
    | .obj [(name, .null)] => ActorRole.parse name
    | _ => none
  read_write role := by cases role <;> rfl

def actorCodec : JsonCodec Actor where
  write actor := .obj [("id", .str actor.id), ("role", .str actor.role.name)]
  read v := do
    let fields ← v.fields ["id", "role"] 2
    let id ← Field.read ⟨"id", string, none⟩ fields
    let role ← Field.read ⟨"role", roleCodec, none⟩ fields
    some ⟨id, role⟩
  read_write actor := by
    have hrole : Field.read ⟨"role", roleCodec, none⟩ (fun name =>
        [("id", Json.str actor.id), ("role", .str actor.role.name)].lookup name) = some actor.role :=
      roleCodec.read_write actor.role
    show (Field.read ⟨"role", roleCodec, none⟩ _).bind _ = _
    rw [hrole]
    rfl

/-! ## The envelope -/

/-- The fields in the order of their declaration, the first fourteen without `serde(default)`. -/
def fieldNames : List String :=
  ["id", "parent_id", "trace_id", "run_id", "node_id", "actor", "namespace", "target", "kind",
    "attributes", "edge_rules_fired", "status", "summary", "timestamp", "step_index", "stream_id",
    "state_before_hash", "state_after_hash", "references", "in_reply_to"]

/-- What a missing field is read as; an option without a default of its own is none. -/
def defaults : List (String × Json) :=
  [("parent_id", .null), ("run_id", .null), ("node_id", .null), ("summary", .null),
    ("step_index", Json.ofNat 0), ("stream_id", .str ""), ("state_before_hash", .null),
    ("state_after_hash", .null), ("references", .arr []), ("in_reply_to", .null)]

def hashCodec : JsonCodec (Option StateHash) := nullable (vector 32 byte) fun _ => by simp [vector]

theorem string_write_ne_null (s : String) : string.write s ≠ .null := by
  intro h
  cases h

def nullableString : JsonCodec (Option String) := nullable string string_write_ne_null

section
variable {lib : Externals} {Instant : Type} (f : Formats lib Instant)

def Formats.uuid : JsonCodec Uuid := text lib.formatUuid lib.parseUuid f.parse_formatUuid

def Formats.nullableUuid : JsonCodec (Option Uuid) :=
  nullable f.uuid fun _ => by simp [Formats.uuid, text]

def Formats.time : JsonCodec Instant := text f.formatTime f.parseTime f.parse_formatTime

namespace Interaction

/-- The fields as they are written, in key order. -/
def fields (i : Interaction Instant) : List (String × Json) :=
  [("actor", actorCodec.write i.actor),
    ("attributes", value.write i.attributes),
    ("edge_rules_fired", (list string).write i.edgeRulesFired),
    ("id", f.uuid.write i.id),
    ("in_reply_to", f.nullableUuid.write i.inReplyTo),
    ("kind", InteractionKind.codec.write i.kind),
    ("namespace", string.write i.namespace_),
    ("node_id", nullableString.write i.nodeId),
    ("parent_id", f.nullableUuid.write i.parentId),
    ("references", (list f.uuid).write i.references),
    ("run_id", f.nullableUuid.write i.runId),
    ("state_after_hash", hashCodec.write i.stateAfterHash),
    ("state_before_hash", hashCodec.write i.stateBeforeHash),
    ("status", InteractionStatus.codec.write i.status),
    ("step_index", word.write i.stepIndex),
    ("stream_id", string.write i.streamId),
    ("summary", nullableString.write i.summary),
    ("target", string.write i.target),
    ("timestamp", f.time.write i.timestamp),
    ("trace_id", f.uuid.write i.traceId)]

def toJson (i : Interaction Instant) : Json := .obj (i.fields f)

def readFields (fields : Fields) : Option (Interaction Instant) := do
  let id ← Field.read ⟨"id", f.uuid, none⟩ fields
  let parentId ← Field.read ⟨"parent_id", f.nullableUuid, some none⟩ fields
  let traceId ← Field.read ⟨"trace_id", f.uuid, none⟩ fields
  let runId ← Field.read ⟨"run_id", f.nullableUuid, some none⟩ fields
  let nodeId ← Field.read ⟨"node_id", nullableString, some none⟩ fields
  let actor ← Field.read ⟨"actor", actorCodec, none⟩ fields
  let namespace_ ← Field.read ⟨"namespace", string, none⟩ fields
  let target ← Field.read ⟨"target", string, none⟩ fields
  let kind ← Field.read ⟨"kind", InteractionKind.codec, none⟩ fields
  let attributes ← Field.read ⟨"attributes", value, none⟩ fields
  let edgeRulesFired ← Field.read ⟨"edge_rules_fired", list string, none⟩ fields
  let status ← Field.read ⟨"status", InteractionStatus.codec, none⟩ fields
  let summary ← Field.read ⟨"summary", nullableString, some none⟩ fields
  let timestamp ← Field.read ⟨"timestamp", f.time, none⟩ fields
  let stepIndex ← Field.read ⟨"step_index", word, some 0⟩ fields
  let streamId ← Field.read ⟨"stream_id", string, some ""⟩ fields
  let stateBeforeHash ← Field.read ⟨"state_before_hash", hashCodec, some none⟩ fields
  let stateAfterHash ← Field.read ⟨"state_after_hash", hashCodec, some none⟩ fields
  let references ← Field.read ⟨"references", list f.uuid, some []⟩ fields
  let inReplyTo ← Field.read ⟨"in_reply_to", f.nullableUuid, some none⟩ fields
  some ⟨id, parentId, traceId, runId, nodeId, actor, namespace_, target, kind, attributes,
    edgeRulesFired, status, summary, timestamp, stepIndex, streamId, stateBeforeHash, stateAfterHash,
    references, inReplyTo⟩

def fromJson (v : Json) : Option (Interaction Instant) := (v.fields fieldNames 14).bind (readFields f)

end Interaction

variable {f}

/-- A record that carries the fields of an interaction is read as that interaction. -/
theorem fromJson_carried {i : Interaction Instant} {v : Json} {fields : Fields}
    (hv : v.fields fieldNames 14 = some fields)
    (h : Carries fieldNames (i.fields f) defaults fields) : Interaction.fromJson f v = some i := by
  have hid : Field.read ⟨"id", f.uuid, none⟩ fields = some i.id :=
    Field.read_carried h rfl rfl rfl
  have hparent : Field.read ⟨"parent_id", f.nullableUuid, some none⟩ fields = some i.parentId :=
    Field.read_carried h rfl rfl rfl
  have htrace : Field.read ⟨"trace_id", f.uuid, none⟩ fields = some i.traceId :=
    Field.read_carried h rfl rfl rfl
  have hrun : Field.read ⟨"run_id", f.nullableUuid, some none⟩ fields = some i.runId :=
    Field.read_carried h rfl rfl rfl
  have hnode : Field.read ⟨"node_id", nullableString, some none⟩ fields = some i.nodeId :=
    Field.read_carried h rfl rfl rfl
  have hactor : Field.read ⟨"actor", actorCodec, none⟩ fields = some i.actor :=
    Field.read_carried h rfl rfl rfl
  have hnamespace : Field.read ⟨"namespace", string, none⟩ fields = some i.namespace_ :=
    Field.read_carried h rfl rfl rfl
  have htarget : Field.read ⟨"target", string, none⟩ fields = some i.target :=
    Field.read_carried h rfl rfl rfl
  have hkind : Field.read ⟨"kind", InteractionKind.codec, none⟩ fields = some i.kind :=
    Field.read_carried h rfl rfl rfl
  have hattributes : Field.read ⟨"attributes", value, none⟩ fields = some i.attributes :=
    Field.read_carried h rfl rfl rfl
  have hrules : Field.read ⟨"edge_rules_fired", list string, none⟩ fields = some i.edgeRulesFired :=
    Field.read_carried h rfl rfl rfl
  have hstatus : Field.read ⟨"status", InteractionStatus.codec, none⟩ fields = some i.status :=
    Field.read_carried h rfl rfl rfl
  have hsummary : Field.read ⟨"summary", nullableString, some none⟩ fields = some i.summary :=
    Field.read_carried h rfl rfl rfl
  have htime : Field.read ⟨"timestamp", f.time, none⟩ fields = some i.timestamp :=
    Field.read_carried h rfl rfl rfl
  have hstep : Field.read ⟨"step_index", word, some 0⟩ fields = some i.stepIndex :=
    Field.read_carried h rfl rfl rfl
  have hstream : Field.read ⟨"stream_id", string, some ""⟩ fields = some i.streamId :=
    Field.read_carried h rfl rfl rfl
  have hbefore : Field.read ⟨"state_before_hash", hashCodec, some none⟩ fields = some i.stateBeforeHash :=
    Field.read_carried h rfl rfl rfl
  have hafter : Field.read ⟨"state_after_hash", hashCodec, some none⟩ fields = some i.stateAfterHash :=
    Field.read_carried h rfl rfl rfl
  have hreferences : Field.read ⟨"references", list f.uuid, some []⟩ fields = some i.references :=
    Field.read_carried h rfl rfl rfl
  have hreply : Field.read ⟨"in_reply_to", f.nullableUuid, some none⟩ fields = some i.inReplyTo :=
    Field.read_carried h rfl rfl rfl
  rw [Interaction.fromJson, hv, Option.bind_some, Interaction.readFields]
  rw [hid, hparent, htrace, hrun, hnode, hactor, hnamespace, htarget, hkind, hattributes, hrules, hstatus,
    hsummary, htime, hstep, hstream, hbefore, hafter, hreferences, hreply]
  rfl

theorem fromJson_toJson (i : Interaction Instant) :
    Interaction.fromJson f (i.toJson f) = some i :=
  fromJson_carried rfl fun _ _ => .inl rfl

/-- Nothing is read but the fields by name. -/
theorem readFields_congr {fields fields' : Fields} (h : ∀ name ∈ fieldNames, fields name = fields' name) :
    Interaction.readFields f fields = Interaction.readFields f fields' := by
  have hrestrict : ∀ fields : Fields, Interaction.readFields f fields =
      Interaction.readFields f fun name => if fieldNames.contains name then fields name else none :=
    fun _ => rfl
  rw [hrestrict fields, hrestrict fields']
  congr 1
  funext name
  split_ifs with hname
  · exact h name (List.contains_iff_mem.mp hname)
  · rfl

variable (f)

/-- An interaction is read back from what was written of it, and from any record that carries its
fields: with others beside them, without some that had their defaults, or as an array. A field of
another name never changes what a row is read as. -/
theorem interactions_read_back (i : Interaction Instant) :
    Interaction.fromJson f (i.toJson f) = some i ∧
    (∀ v fields, v.fields fieldNames 14 = some fields → Carries fieldNames (i.fields f) defaults fields →
      Interaction.fromJson f v = some i) ∧
    ∀ a b : List (String × Json), (∀ name ∈ fieldNames, a.lookup name = b.lookup name) →
      Interaction.fromJson f (.obj a) = Interaction.fromJson f (.obj b) :=
  ⟨fromJson_toJson i, fun _ _ => fromJson_carried, fun _ _ h => readFields_congr h⟩

end

/-! ## Decimal texts -/

/-- Ids and instants as decimal numbers. -/
def decimal (text : String) : Option ℕ := some (Nat.ofDigitChars 10 text.toList 0)

theorem decimal_toString (n : ℕ) : decimal (toString n) = some n := by
  rw [decimal, Nat.toString_eq_repr, Nat.toList_repr, Nat.ofDigitChars_ten_toDigits]

def decimalExternals : Externals := { plainExternals with parseUuid := decimal, formatUuid := toString }

def decimalFormats : Formats decimalExternals ℕ := ⟨toString, decimal, decimal_toString, decimal_toString⟩

def plainInteraction : Interaction ℕ where
  id := 5
  parentId := none
  traceId := 6
  runId := none
  nodeId := none
  actor := ⟨"agent", .system⟩
  namespace_ := "konf:demo"
  target := "llm:complete"
  kind := .productDefined "observation.v2"
  attributes := .obj []
  edgeRulesFired := []
  status := .observed
  summary := some "said nothing"
  timestamp := 7
  stepIndex := 0
  streamId := ""
  stateBeforeHash := none
  stateAfterHash := none
  references := []
  inReplyTo := none

/-- The row of an older version, without the later fields, and with a field of its own. -/
def olderRow : List (String × Json) :=
  ("span", .null) :: (plainInteraction.fields decimalFormats).filter fun e =>
    e.1 ∉ ["step_index", "stream_id", "state_before_hash", "references", "in_reply_to", "parent_id"]

theorem interactions_read_back_older :
    Interaction.fromJson decimalFormats (.obj olderRow) = some plainInteraction := by
  apply (interactions_read_back decimalFormats plainInteraction).2.1 (.obj olderRow)
    (fun name => olderRow.lookup name) rfl
  intro name hname
  simp only [fieldNames, List.mem_cons, List.not_mem_nil, or_false] at hname
  rcases hname with rfl | rfl | rfl | rfl | rfl | rfl | rfl | rfl | rfl | rfl | rfl | rfl | rfl | rfl |
    rfl | rfl | rfl | rfl | rfl | rfl
  all_goals first
    | exact .inl rfl
    | exact .inr ⟨rfl, rfl⟩

end Konf.Interactions
