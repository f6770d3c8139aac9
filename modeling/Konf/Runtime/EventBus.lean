import Konf.Foundations.Broadcast
import Konf.Foundations.Json
import Konf.Foundations.Text
import Konf.Substrate.Workflow

/-! # The event bus

Model of `konf-runtime/src/event_bus.rs`. Instants are kept as the text that is written for them. The
channel rounds its capacity up, and how is a parameter. -/

namespace Konf.EventBus
open Konf.Substrate Konf.Text Konf.Broadcast
set_option autoImplicit false

/-! ## Events -/

inductive NodeStatus
  | running
  | retrying (attempt max : ℕ)
  | completed (durationMs : ℕ)
  | failed (error : String)

inductive RunEvent
  | runStarted (runId : Uuid) (workflowId namespace_ : String) (parentId : Option Uuid)
      (startedAt : String)
  | nodeStart (runId : Uuid) (nodeId tool at_ : String)
  | nodeEnd (runId : Uuid) (nodeId : String) (status : NodeStatus) (at_ : String)
  | textDelta (runId : Uuid) (nodeId delta : String)
  | runCompleted (runId : Uuid) (durationMs : ℕ)
  | runFailed (runId : Uuid) (durationMs : ℕ) (error : String)
  | runCancelled (runId : Uuid) (reason : String)
  | toolInvoked (tool namespace_ at_ : String) (success : Bool)
  | scheduleFired (jobId : Uuid) (workflow namespace_ firedAt : String)
  | scheduleFailed (jobId : Uuid) (workflow reason : String)
  | intentReplayed (runId workflow : String) (replayCount : ℕ)
  | journalAppended (sequence : ℕ) (eventType namespace_ : String) (runId : Uuid)

namespace RunEvent

def kind : RunEvent → String
  | runStarted .. => "run_started"
  | nodeStart .. => "node_start"
  | nodeEnd .. => "node_end"
  | textDelta .. => "text_delta"
  | runCompleted .. => "run_completed"
  | runFailed .. => "run_failed"
  | runCancelled .. => "run_cancelled"
  | toolInvoked .. => "tool_invoked"
  | scheduleFired .. => "schedule_fired"
  | scheduleFailed .. => "schedule_failed"
  | intentReplayed .. => "intent_replayed"
  | journalAppended .. => "journal_appended"

/-- Events without a namespace have the empty one. -/
def namespace_ : RunEvent → String
  | runStarted _ _ ns _ _ | toolInvoked _ ns _ _ | scheduleFired _ _ ns _
  | journalAppended _ _ ns _ => ns
  | nodeStart .. | nodeEnd .. | textDelta .. | runCompleted .. | runFailed .. | runCancelled ..
  | scheduleFailed .. | intentReplayed .. => ""

/-! ## Serialization -/

/-- The name of the Rust variant. -/
def variant : RunEvent → String
  | runStarted .. => "RunStarted"
  | nodeStart .. => "NodeStart"
  | nodeEnd .. => "NodeEnd"
  | textDelta .. => "TextDelta"
  | runCompleted .. => "RunCompleted"
  | runFailed .. => "RunFailed"
  | runCancelled .. => "RunCancelled"
  | toolInvoked .. => "ToolInvoked"
  | scheduleFired .. => "ScheduleFired"
  | scheduleFailed .. => "ScheduleFailed"
  | intentReplayed .. => "IntentReplayed"
  | journalAppended .. => "JournalAppended"

end RunEvent

/-- `rename_all = "snake_case"` on the name of a variant. -/
def snakeCase (name : String) : String :=
  match name.toList with
  | [] => ""
  | c :: cs => String.ofList
    (c.toLower :: cs.flatMap fun d => if d.isUpper then ['_', d.toLower] else [d.toLower])

def NodeStatus.fields : NodeStatus → List (String × Json)
  | .running => [("status", .str "running")]
  | .retrying attempt max =>
    [("status", .str "retrying"), ("attempt", .ofNat attempt), ("max", .ofNat max)]
  | .completed durationMs => [("status", .str "completed"), ("duration_ms", .ofNat durationMs)]
  | .failed error => [("status", .str "failed"), ("error", .str error)]

/-- The fields of the JSON object of an event, the tag first, in the order in which they are written. -/
def RunEvent.fields (formatUuid : Uuid → String) (e : RunEvent) : List (String × Json) :=
  ("type", .str (snakeCase e.variant)) :: match e with
    | .runStarted runId workflowId ns parentId startedAt =>
      [("run_id", .str (formatUuid runId)), ("workflow_id", .str workflowId), ("namespace", .str ns),
        ("parent_id", (parentId.map fun p => Json.str (formatUuid p)).getD .null),
        ("started_at", .str startedAt)]
    | .nodeStart runId nodeId tool at_ =>
      [("run_id", .str (formatUuid runId)), ("node_id", .str nodeId), ("tool", .str tool),
        ("at", .str at_)]
    | .nodeEnd runId nodeId status at_ =>
      [("run_id", .str (formatUuid runId)), ("node_id", .str nodeId), ("status", .obj status.fields),
        ("at", .str at_)]
    | .textDelta runId nodeId delta =>
      [("run_id", .str (formatUuid runId)), ("node_id", .str nodeId), ("delta", .str delta)]
    | .runCompleted runId durationMs =>
      [("run_id", .str (formatUuid runId)), ("duration_ms", .ofNat durationMs)]
    | .runFailed runId durationMs error =>
      [("run_id", .str (formatUuid runId)), ("duration_ms", .ofNat durationMs), ("error", .str error)]
    | .runCancelled runId reason => [("run_id", .str (formatUuid runId)), ("reason", .str reason)]
    | .toolInvoked tool ns at_ success =>
      [("tool", .str tool), ("namespace", .str ns), ("at", .str at_), ("success", .bool success)]
    | .scheduleFired jobId workflow ns firedAt =>
      [("job_id", .str (formatUuid jobId)), ("workflow", .str workflow), ("namespace", .str ns),
        ("fired_at", .str firedAt)]
    | .scheduleFailed jobId workflow reason =>
      [("job_id", .str (formatUuid jobId)), ("workflow", .str workflow), ("reason", .str reason)]
    | .intentReplayed runId workflow replayCount =>
      [("run_id", .str runId), ("workflow", .str workflow), ("replay_count", .ofNat replayCount)]
    | .journalAppended sequence eventType ns runId =>
      [("sequence", .ofNat sequence), ("event_type", .str eventType), ("namespace", .str ns),
        ("run_id", .str (formatUuid runId))]

/-! ## The bus -/

abbrev RunEventBus : Type := Channel RunEvent

/-- A channel without capacity cannot be made: the constructor panics. -/
def RunEventBus.withCapacity (roundUp : ℕ → ℕ) (capacity : ℕ) : Option RunEventBus :=
  if capacity = 0 then none else some (Channel.new (roundUp capacity))

end Konf.EventBus
