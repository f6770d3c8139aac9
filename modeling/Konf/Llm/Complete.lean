import Mathlib.Logic.Relation
import Konf.Llm.React

/-! # Completions

Model of `AiCompleteTool` (`konf-tool-llm/src/lib.rs`): what it reads from its input, and what it answers.
A model that is given `ai:complete` among its tools can ask for completions of its own, to any depth.
The events of the stream and the log lines are left out. -/

namespace Konf.Llm
open Konf.Substrate
set_option autoImplicit false

/-! ## The input -/

def promptOf (input : Json) : String := ((input.get "prompt").bind Json.asStr).getD ""

/-- The names of `tools`; what is not a text is dropped. -/
def toolWhitelist (input : Json) : Option (List String) :=
  ((input.get "tools").bind Json.asArray).map fun items => items.filterMap Json.asStr

def priorMessage (m : Json) : Option Message :=
  (m.get "role").bind Json.asStr |>.bind fun role =>
    (m.get "content").bind Json.asStr |>.bind fun content =>
      if role = "user" then some (.user (.one (.text content)))
      else if role = "assistant" then some (.assistant none (.one (.text content)))
      else if role = "system" then some (.system content)
      else none

def parsePriorMessages (input : Json) : List Message :=
  (((input.get "messages").bind Json.asArray).getD []).filterMap priorMessage

/-- `as_f64`, with the rounding of integers. -/
def floatBits (round : ℤ → UInt64) : JsonNumber → UInt64
  | .int i => round i
  | .float bits => bits

def mergeConfig (round : ℤ → UInt64) (config : LlmConfig) (input : Json) : LlmConfig where
  provider := ((input.get "provider").bind Json.asStr).getD config.provider
  model := ((input.get "model").bind Json.asStr).getD config.model
  temperature := (((input.get "temperature").bind Json.asNumber).map (floatBits round)).getD
    config.temperature
  maxTokens := ((input.get "max_tokens").bind Json.asU64).getD config.maxTokens
  maxIterations := ((input.get "max_iterations").bind Json.asU64).getD config.maxIterations

/-! ## The tool -/

/-- The payload of the answer. -/
def completion (config : LlmConfig) (durationMs : ℕ) (result : ReactResult) : Json :=
  .obj [("_meta", .obj [("duration_ms", .ofNat durationMs), ("iterations", .ofNat result.iterations),
      ("model", .str config.model), ("provider", .str config.provider), ("tool", .str "ai:complete"),
      ("tool_calls", .ofNat result.toolCallCount)]),
    ("text", .str result.text)]

section Complete
variable {T : Type} [NamedTool T] (lib : Bridging T)

/-- The tools that the model is given. -/
def innerTools (registry : ToolRegistry T) (env : Envelope) : List ToolDyn :=
  (resolveTools registry env (toolWhitelist env.payload)).map (Bridge.toolDyn lib)

/-- What a completion finds when it is carried out. -/
structure Occasion (T : Type) [NamedTool T] where
  around : Surroundings
  round : ℤ → UInt64
  config : LlmConfig
  registry : ToolRegistry T
  durationMs : ℕ

/-- `AiCompleteTool::invoke`. -/
def aiComplete (o : Occasion T) (env : Envelope) :
    Except ToolError Envelope × ReactState (innerTools lib o.registry env).length :=
  let config := mergeConfig o.round o.config env.payload
  let run := reactLoop o.around config (innerTools lib o.registry env)
    ((env.payload.get "system").bind Json.asStr) (parsePriorMessages env.payload) (promptOf env.payload)
  (run.1.map fun result => env.respond (completion config o.durationMs result), run.2)

/-- A completion whose model asks for another one: the envelope of each. -/
inductive Asks : Envelope → Envelope → Prop
  | call {env : Envelope} (o : Occasion T) {v : Invocation (innerTools lib o.registry env).length}
      {input : Json} (hv : v ∈ (aiComplete lib o env).2.invocations) (hself : v.call.name = "ai:complete")
      (hargs : lib.fromText v.args = .ok input) : Asks env ((env.respond .null).respond input)

/-- The completions that a completion leads to, itself among them. -/
def LeadsTo : Envelope → Envelope → Prop := Relation.ReflTransGen (Asks lib)

end Complete

/-! ## What a completion reaches -/

/-- What a tool sees of its caller. -/
structure SameCaller (env env' : Envelope) : Prop where
  traceId : env'.traceId = env.traceId
  actorId : env'.actorId = env.actorId
  namespace_ : env'.namespace_ = env.namespace_
  capabilities : env'.capabilities = env.capabilities
  target : env'.target = env.target
  streamId : env'.streamId = env.streamId
  deadline : env'.deadline = env.deadline
  metadata : env'.metadata = env.metadata

theorem SameCaller.refl (env : Envelope) : SameCaller env env := ⟨rfl, rfl, rfl, rfl, rfl, rfl, rfl, rfl⟩

theorem SameCaller.trans {env env' env'' : Envelope} (h : SameCaller env env') (h' : SameCaller env' env'') :
    SameCaller env env'' :=
  ⟨h'.traceId.trans h.traceId, h'.actorId.trans h.actorId, h'.namespace_.trans h.namespace_,
    h'.capabilities.trans h.capabilities, h'.target.trans h.target, h'.streamId.trans h.streamId,
    h'.deadline.trans h.deadline, h'.metadata.trans h.metadata⟩

theorem SameCaller.respond {env env' : Envelope} (h : SameCaller env env') (payload : Json) :
    SameCaller env (env'.respond payload) :=
  ⟨h.traceId, h.actorId, h.namespace_, h.capabilities, h.target, h.streamId, h.deadline, h.metadata⟩

section Reach
variable {T : Type} [NamedTool T] {lib : Bridging T} {env env' : Envelope}

/-- Every resolved tool is given the same envelope to answer to. -/
theorem parentEnv_of_mem {registry : ToolRegistry T} {whitelist : Option (List String)} {bridge : Bridge T}
    (h : bridge ∈ resolveTools registry env whitelist) : bridge.parentEnv = env.respond .null := by
  obtain ⟨name, -, hname⟩ := List.mem_filterMap.mp h
  split_ifs at hname
  obtain ⟨tool, -, rfl⟩ := Option.map_eq_some_iff.mp hname
  rfl

/-- A tool that a completion for `env` may call by this name. -/
structure Callable (lib : Bridging T) (registry : ToolRegistry T) (env : Envelope) (name : String)
    (call : ℕ → String → Except String String) : Prop where
  registered : ∃ tool, registry.get name = some tool ∧ call = Bridge.call lib ⟨tool, env.respond .null⟩
  granted : checkToolAccess name env.capabilities.toPatterns = .ok ()
  listed : ∀ wl, toolWhitelist env.payload = some wl → name ∈ wl
  asked : name = "ai:complete" → ∃ wl, toolWhitelist env.payload = some wl

/-- Whatever the model replies, a completion calls what it may. -/
theorem aiComplete_callable (o : Occasion T) {v : Invocation (innerTools lib o.registry env).length}
    (hv : v ∈ (aiComplete lib o env).2.invocations) :
    Callable lib o.registry env v.call.name ((innerTools lib o.registry env).get v.index).call := by
  obtain ⟨turns, asked, htrace, -⟩ := reactLoop_spec o.around (mergeConfig o.round o.config env.payload)
    (innerTools lib o.registry env) ((env.payload.get "system").bind Json.asStr)
    (parsePriorMessages env.payload) (promptOf env.payload)
  obtain ⟨bridge, hmem, hbridge⟩ := List.mem_map.mp (List.get_mem _ v.index)
  have hname : NamedTool.name bridge.inner = v.call.name :=
    (congrArg ToolDyn.name hbridge).trans (htrace.rightful v hv)
  obtain ⟨hget, haccess, hlisted, hself⟩ := mem_resolveTools hmem
  rw [hname] at hget haccess hlisted hself
  refine ⟨⟨bridge.inner, hget, ?_⟩, haccess, hlisted, ?_⟩
  · rw [← hbridge, ← parentEnv_of_mem hmem]
    rfl
  · intro hcomplete
    exact Option.ne_none_iff_exists'.mp fun hnone => hself hnone hcomplete

theorem Asks.sameCaller (h : Asks lib env env') : SameCaller env env' := by
  cases h with
  | call => exact ((SameCaller.refl env).respond _).respond _

/-- Only a list with `ai:complete` on it lets the model ask for a completion. -/
theorem Asks.listed (h : Asks lib env env') :
    ∃ wl, toolWhitelist env.payload = some wl ∧ "ai:complete" ∈ wl := by
  cases h with
  | call o hv hself _ =>
    have hcallable := aiComplete_callable o hv
    obtain ⟨wl, hwl⟩ := hcallable.asked hself
    exact ⟨wl, hwl, hself ▸ hcallable.listed wl hwl⟩

theorem LeadsTo.sameCaller (h : LeadsTo lib env env') : SameCaller env env' := by
  induction h with
  | refl => exact .refl env
  | tail _ hasks ih => exact ih.trans hasks.sameCaller

/-- However the models of a completion and of those it leads to reply, and whatever their tools answer:
each tool that is called is the one registered under the name, is granted to the first caller, is called
with that caller's identity and is on the list of its own completion. There is no second completion
unless the first one's list has `ai:complete`. -/
theorem completions_confined (h : LeadsTo lib env env') :
    SameCaller env env' ∧
    (env' = env ∨ ∃ wl, toolWhitelist env.payload = some wl ∧ "ai:complete" ∈ wl) ∧
    ∀ (o : Occasion T), ∀ v ∈ (aiComplete lib o env').2.invocations,
      (∃ tool, o.registry.get v.call.name = some tool ∧
        ((innerTools lib o.registry env').get v.index).call = Bridge.call lib ⟨tool, env'.respond .null⟩) ∧
      checkToolAccess v.call.name env.capabilities.toPatterns = .ok () ∧
      ∀ wl, toolWhitelist env'.payload = some wl → v.call.name ∈ wl := by
  have hsame := h.sameCaller
  refine ⟨hsame, ?_, ?_⟩
  · obtain rfl | ⟨_, hfirst, -⟩ := Relation.ReflTransGen.cases_head h
    · exact .inl rfl
    · exact .inr hfirst.listed
  · intro o v hv
    have hcallable := aiComplete_callable o hv
    refine ⟨hcallable.registered, ?_, hcallable.listed⟩
    rw [← hsame.capabilities]
    exact hcallable.granted

end Reach

/-! ## A completion of a completion -/

structure StubTool where
  name : String

instance : NamedTool StubTool := ⟨StubTool.name⟩

/-- The model asks for a completion with a tool that its own list does not have. -/
def nestedInput : Json := .obj [("prompt", .str "say it"), ("tools", .arr [.str "echo"])]

def nestedText : String := "\x7b\"prompt\":\"say it\",\"tools\":[\"echo\"]\x7d"

def answerText : String := "\x7b\"text\":\"said\"\x7d"

def stubs : Bridging StubTool where
  description := StubTool.name
  inputSchema _ := .obj []
  invoke _ _ env := .ok (env.respond (.obj [("text", .str "said")]))
  fromText text := if text = nestedText then .ok nestedInput else .error "expected value"
  toText _ := .ok answerText
  jsonError e := "JsonError: " ++ e
  toolCallError e := "ToolCallError: " ++ e

def relaying : Occasion StubTool where
  around := {
    reply nth :=
      if nth = 0 then .ok ⟨.one (.toolCall ⟨"call-1", none, "ai:complete", nestedInput⟩), none⟩
      else .ok ⟨.one (.text "said"), none⟩
    toText _ := some nestedText
    providerError := id
    emptyListError := "empty" }
  round _ := 0
  config := ⟨"openai", "gpt-4o", 0x3fe6666666666666, 4096, 10⟩
  registry := (ToolRegistry.new.register ⟨"echo"⟩).register ⟨"ai:complete"⟩
  durationMs := 5

def chatEnv : Envelope :=
  .forToolDispatch "chat" (.obj [("prompt", .str "hello"), ("tools", .arr [.str "ai:complete"])]) ["*"]
    1 "konf:chat" "user" "stream"

theorem completions_confined_nested : ∃ env', LeadsTo stubs chatEnv env' ∧
    toolWhitelist env'.payload = some ["echo"] ∧ SameCaller chatEnv env' := by
  have hcalls : ((aiComplete stubs relaying chatEnv).2.invocations.map fun v => (v.call.name, v.args)) =
      [("ai:complete", nestedText)] := by
    decide +kernel
  obtain ⟨v, hlist, hv⟩ := List.map_eq_singleton_iff.mp hcalls
  obtain ⟨hself, hargs⟩ := Prod.mk.inj hv
  have hmem : v ∈ (aiComplete stubs relaying chatEnv).2.invocations := hlist ▸ List.mem_singleton_self v
  have hasks : Asks stubs chatEnv ((chatEnv.respond .null).respond nestedInput) :=
    .call relaying hmem hself (by rw [hargs]; rfl)
  have hleads : LeadsTo stubs chatEnv ((chatEnv.respond .null).respond nestedInput) := .single hasks
  exact ⟨_, hleads, rfl, (completions_confined hleads).1⟩

end Konf.Llm
