import Konf.Substrate.Tool

/-! # The ReAct loop

Model of `react_loop` and of what it calls (`konf-tool-llm/src/lib.rs`): the inner tools are resolved from
the registry, the model is asked, its tool calls are dispatched in order and answered in one user message,
and the model is asked again, at most `max_iterations` times. The message types are those of `rig`, cut
down to the content the loop looks at. The provider's replies and the outcomes of the tools are arbitrary;
a state also records the message list of every completion call and every invocation of a tool. -/

namespace Konf.Llm
open Konf.Substrate
set_option autoImplicit false

/-! ## Messages -/

structure OneOrMany (α : Type) where
  first : α
  rest : List α
deriving DecidableEq

namespace OneOrMany
variable {α : Type}

def one (item : α) : OneOrMany α := ⟨item, []⟩

/-- Fails on the empty list only. -/
def many : List α → Option (OneOrMany α)
  | [] => none
  | item :: items => some ⟨item, items⟩

def toList (items : OneOrMany α) : List α := items.first :: items.rest

theorem toList_of_many {items : List α} {content : OneOrMany α} (h : many items = some content) :
    content.toList = items := by
  cases items with
  | nil => simp [many] at h
  | cons item items =>
    simp only [many, Option.some.injEq] at h
    rw [← h, toList]

theorem many_eq_none {items : List α} (h : many items = none) : items = [] := by
  cases items with
  | nil => rfl
  | cons item items => simp [many] at h

end OneOrMany

structure ToolCall where
  id : String
  callId : Option String
  name : String
  arguments : Json
deriving DecidableEq

inductive AssistantContent
  | text (text : String)
  | toolCall (call : ToolCall)
  | reasoning (content : Json)
  | image (content : Json)
deriving DecidableEq

inductive ToolResultContent
  | text (text : String)
  | image (content : Json)
deriving DecidableEq

inductive UserContent
  | text (text : String)
  | toolResult (id : String) (callId : Option String) (content : OneOrMany ToolResultContent)
  | media (content : Json)
deriving DecidableEq

inductive Message
  | system (content : String)
  | user (content : OneOrMany UserContent)
  | assistant (id : Option String) (content : OneOrMany AssistantContent)
deriving DecidableEq

/-- `CompletionResponse`, without the usage figures and the raw response. -/
structure Response where
  choice : OneOrMany AssistantContent
  messageId : Option String
deriving DecidableEq

namespace Response

def textParts (response : Response) : List String :=
  response.choice.toList.filterMap fun
    | .text text => some text
    | _ => none

def toolCalls (response : Response) : List ToolCall :=
  response.choice.toList.filterMap fun
    | .toolCall call => some call
    | _ => none

end Response

/-! ## Completion requests -/

structure ToolDefinition where
  name : String
  description : String
  parameters : Json
deriving DecidableEq

structure LlmConfig where
  provider : String
  model : String
  temperature : UInt64
  maxTokens : ℕ
  maxIterations : ℕ
deriving DecidableEq

/-- The request that `rig`'s builder makes: the history first, then the prompt. -/
structure Request where
  model : String
  prompt : Message
  history : List Message
  tools : List ToolDefinition
  temperature : UInt64
  maxTokens : ℕ

def Request.messages (request : Request) : List Message := request.history ++ [request.prompt]

/-- What the loop uses of the libraries below it: the provider's reply to each request in turn, the
serialiser, and the texts of two library errors. -/
structure Surroundings where
  reply : ℕ → Except String Response
  toText : Json → Option String
  providerError : String → String
  emptyListError : String

def supportedProviders : List String := ["openai", "anthropic", "gemini", "ollama"]

/-- `call_completion`, for the `nth` request. -/
def callCompletion (around : Surroundings) (config : LlmConfig) (nth : ℕ) : Except String Response :=
  if config.provider ∈ supportedProviders then around.reply nth
  else .error (around.providerError ("Unknown LLM provider: '" ++ config.provider ++
    "'. Supported: openai, anthropic, gemini, ollama"))

/-! ## Dispatching the calls of a response -/

/-- A `ToolDyn` trait object; a call gets the number of the calls made before it, which stands for all
the state an inner tool may depend on. -/
structure ToolDyn where
  name : String
  definition : ToolDefinition
  call : ℕ → String → Except String String

structure Invocation (n : ℕ) where
  index : Fin n
  call : ToolCall
  args : String

structure ReactState (n : ℕ) where
  messages : List Message
  totalToolCalls : ℕ
  calls : List (List Message)
  invocations : List (Invocation n)

namespace ReactState
variable {n : ℕ}

def push (s : ReactState n) (message : Message) : ReactState n :=
  { s with messages := s.messages ++ [message] }

/-- Records a completion call on the messages as they are. -/
def ask (s : ReactState n) : ReactState n := { s with calls := s.calls ++ [s.messages] }

@[simp] theorem push_messages (s : ReactState n) (message : Message) :
    (s.push message).messages = s.messages ++ [message] := rfl

@[simp] theorem ask_messages (s : ReactState n) : s.ask.messages = s.messages := rfl

end ReactState

structure ReactResult where
  text : String
  iterations : ℕ
  toolCallCount : ℕ
deriving DecidableEq

section Loop
variable (around : Surroundings) (config : LlmConfig) (tools : List ToolDyn)

/-- Of two tools with one name the later one is kept. -/
def toolMap : StrMap (Fin tools.length) :=
  (List.finRange tools.length).foldl (fun m i => m.insert (tools.get i).name i) ∅

/-- The text that answers a call; a failing tool and an unknown one are answered too. -/
def callTool (s : ReactState tools.length) (tc : ToolCall) : String × ReactState tools.length :=
  match (toolMap tools).lookup tc.name with
  | some idx =>
    let args := (around.toText tc.arguments).getD "\x7b\x7d"
    let text := match (tools.get idx).call s.invocations.length args with
      | .ok output => output
      | .error e => "Tool error: " ++ e
    (text, { s with invocations := s.invocations ++ [⟨idx, tc, args⟩] })
  | none => ("Unknown tool: " ++ tc.name, s)

def dispatch (s : ReactState tools.length) (tc : ToolCall) : UserContent × ReactState tools.length :=
  let result := callTool around tools { s with totalToolCalls := s.totalToolCalls + 1 } tc
  match tc.callId with
  | some callId => (.toolResult tc.id (some callId) (.one (.text result.1)), result.2)
  | none => (.toolResult tc.id none (.one (.text result.1)), result.2)

def dispatchAll : List ToolCall → ReactState tools.length → List UserContent × ReactState tools.length
  | [], s => ([], s)
  | tc :: rest, s =>
    let first := dispatch around tools s tc
    let others := dispatchAll rest first.2
    (first.1 :: others.1, others.2)

/-! ## The loop -/

/-- The iterations from `iteration` on, of which `left` remain. -/
def reactFrom : ℕ → ℕ → ReactState tools.length → Except ToolError ReactResult × ReactState tools.length
  | 0, _, s => (.error (.executionFailed ("ai_complete exceeded max_iterations (" ++
      toString config.maxIterations ++ ") without producing a final response") false), s)
  | left + 1, iteration, s =>
    match callCompletion around config iteration with
    | .error e =>
      (.error (.executionFailed (config.provider ++ " completion failed: " ++ e) true), s.ask)
    | .ok response =>
      let heard := s.ask.push (.assistant response.messageId response.choice)
      if response.toolCalls.isEmpty then
        (.ok ⟨String.join response.textParts, iteration + 1, heard.totalToolCalls⟩, heard)
      else
        let results := dispatchAll around tools response.toolCalls heard
        match OneOrMany.many results.1 with
        | none => (.error (.executionFailed ("Failed to build tool results message: " ++
            around.emptyListError) false), results.2)
        | some content => reactFrom left (iteration + 1) (results.2.push (.user content))

/-- The messages before the first reply. -/
def openingMessages (system : Option String) (priorMessages : List Message) (prompt : String) :
    List Message :=
  system.toList.map .system ++ priorMessages ++ [.user (.one (.text prompt))]

def reactLoop (system : Option String) (priorMessages : List Message) (prompt : String) :
    Except ToolError ReactResult × ReactState tools.length :=
  reactFrom around config tools config.maxIterations 0
    ⟨openingMessages system priorMessages prompt, 0, [], []⟩

end Loop

/-! ## What one response adds -/

/-- A tool result that answers the call under its ids. -/
def Answers (tc : ToolCall) (result : UserContent) : Prop :=
  ∃ text, result = .toolResult tc.id tc.callId (.one (.text text))

/-- A response with tool calls and the user message that answers them. -/
structure Turn where
  response : Response
  results : OneOrMany UserContent
  answered : List.Forall₂ Answers response.toolCalls results.toList

def Turn.messages (turn : Turn) : List Message :=
  [.assistant turn.response.messageId turn.response.choice, .user turn.results]

def Turn.toolCalls (turn : Turn) : List ToolCall := turn.response.toolCalls

theorem Turn.toolCalls_ne_nil (turn : Turn) : turn.toolCalls ≠ [] := by
  intro h
  have hlength := turn.answered.length_eq
  rw [← Turn.toolCalls, h, OneOrMany.toList] at hlength
  simp at hlength

section Spec
variable {around : Surroundings} {config : LlmConfig} {tools : List ToolDyn}

/-- The call names an inner tool. -/
def Names (tools : List ToolDyn) (tc : ToolCall) : Prop := ∃ tool ∈ tools, tool.name = tc.name

instance (tc : ToolCall) : Decidable (Names tools tc) := by
  unfold Names
  infer_instance

theorem lookup_insertAll {n : ℕ} (name : Fin n → String) (key : String) (indices : List (Fin n))
    (m : StrMap (Fin n)) :
    (indices.foldl (fun m i => m.insert (name i) i) m).lookup key =
      ((indices.reverse.find? fun i => name i = key).or (m.lookup key)) := by
  induction indices generalizing m with
  | nil => simp
  | cons i indices ih =>
    rw [List.foldl_cons, ih, List.reverse_cons, List.find?_append, Option.or_assoc]
    congr 1
    by_cases h : name i = key
    · subst h
      simp [AList.lookup_insert]
    · simp [h, AList.lookup_insert_ne (Ne.symm h)]

theorem toolMap_lookup (key : String) : (toolMap tools).lookup key =
    (List.finRange tools.length).reverse.find? fun i => (tools.get i).name = key := by
  rw [toolMap, lookup_insertAll]
  simp

theorem name_of_lookup {key : String} {idx : Fin tools.length}
    (h : (toolMap tools).lookup key = some idx) : (tools.get idx).name = key := by
  rw [toolMap_lookup] at h
  simpa using List.find?_some h

theorem not_names_of_lookup {tc : ToolCall} (h : (toolMap tools).lookup tc.name = none) :
    ¬ Names tools tc := by
  intro hnames
  obtain ⟨tool, hmem, hname⟩ := hnames
  obtain ⟨i, rfl⟩ := List.mem_iff_get.mp hmem
  rw [toolMap_lookup, List.find?_eq_none] at h
  exact h i (by simp) (decide_eq_true hname)

/-- Each recorded invocation is of an inner tool that bears the name of its call. -/
def Rightful (invocations : List (Invocation tools.length)) : Prop :=
  ∀ v ∈ invocations, (tools.get v.index).name = v.call.name

/-- What the calls of one response do to the state. -/
structure Dispatched (tcs : List ToolCall) (s : ReactState tools.length) (results : List UserContent)
    (s' : ReactState tools.length) : Prop where
  answered : List.Forall₂ Answers tcs results
  messages : s'.messages = s.messages
  calls : s'.calls = s.calls
  total : s'.totalToolCalls = s.totalToolCalls + tcs.length
  invoked : s'.invocations.map Invocation.call =
    s.invocations.map Invocation.call ++ tcs.filter fun tc => Names tools tc
  rightful : Rightful s.invocations → Rightful s'.invocations

theorem dispatch_spec (s : ReactState tools.length) (tc : ToolCall) :
    Dispatched [tc] s [(dispatch around tools s tc).1] (dispatch around tools s tc).2 := by
  have hanswer : Answers tc (dispatch around tools s tc).1 := by
    cases hc : tc.callId with
    | none => exact ⟨_, by rw [dispatch, hc]⟩
    | some callId => exact ⟨_, by rw [dispatch, hc]⟩
  have hstate : (dispatch around tools s tc).2 =
      (callTool around tools { s with totalToolCalls := s.totalToolCalls + 1 } tc).2 := by
    cases hc : tc.callId with
    | none => simp only [dispatch, hc]
    | some callId => simp only [dispatch, hc]
  have hlist : List.Forall₂ Answers [tc] [(dispatch around tools s tc).1] := .cons hanswer .nil
  rw [hstate]
  cases hl : (toolMap tools).lookup tc.name with
  | none =>
    have hnames := not_names_of_lookup hl
    refine ⟨hlist, ?_, ?_, ?_, ?_, ?_⟩ <;> simp [callTool, hl, hnames]
  | some idx =>
    have hname := name_of_lookup hl
    have hnames : Names tools tc := ⟨_, List.get_mem tools idx, hname⟩
    refine ⟨hlist, ?_, ?_, ?_, ?_, ?_⟩
    · simp [callTool, hl]
    · simp [callTool, hl]
    · simp [callTool, hl]
    · simp [callTool, hl, hnames]
    · intro hr v hv
      simp only [callTool, hl, List.mem_append, List.mem_singleton] at hv
      cases hv with
      | inl hv => exact hr v hv
      | inr hv => rw [hv, hname]

theorem Dispatched.cons {tc : ToolCall} {tcs : List ToolCall} {s s' s'' : ReactState tools.length}
    {result : UserContent} {results : List UserContent} (h : Dispatched [tc] s [result] s')
    (h' : Dispatched tcs s' results s'') : Dispatched (tc :: tcs) s (result :: results) s'' where
  answered := .cons (List.forall₂_cons.mp h.answered).1 h'.answered
  messages := h'.messages.trans h.messages
  calls := h'.calls.trans h.calls
  total := by
    rw [h'.total, h.total, List.length_singleton, List.length_cons]
    omega
  invoked := by
    rw [h'.invoked, h.invoked, List.append_assoc, ← List.filter_append, List.singleton_append]
  rightful := fun hr => h'.rightful (h.rightful hr)

variable (around) in
theorem dispatchAll_spec (tcs : List ToolCall) (s : ReactState tools.length) :
    Dispatched tcs s (dispatchAll around tools tcs s).1 (dispatchAll around tools tcs s).2 := by
  induction tcs generalizing s with
  | nil => exact ⟨.nil, rfl, rfl, rfl, by simp [dispatchAll], id⟩
  | cons tc tcs ih => exact (dispatch_spec s tc).cons (ih _)

/-! ## What the loop does -/

def transcript (opening : List Message) (turns : List Turn) : List Message :=
  opening ++ turns.flatMap Turn.messages

/-- The turns are the replies from the first on. -/
def Heard (around : Surroundings) (config : LlmConfig) (turns : List Turn) : Prop :=
  ∀ i turn, turns[i]? = some turn → callCompletion around config i = .ok turn.response

/-- What a state says about the turns so far, when the model has been asked `asked` times. -/
structure Trace (around : Surroundings) (config : LlmConfig) (opening : List Message) (turns : List Turn)
    (asked : ℕ) (s : ReactState tools.length) : Prop where
  heard : Heard around config turns
  calls : s.calls = (List.range asked).map fun i => transcript opening (turns.take i)
  total : s.totalToolCalls = (turns.flatMap Turn.toolCalls).length
  invoked : s.invocations.map Invocation.call =
    (turns.flatMap Turn.toolCalls).filter fun tc => Names tools tc
  rightful : Rightful s.invocations

theorem Heard.append {turns : List Turn} {turn : Turn} (h : Heard around config turns)
    (hreply : callCompletion around config turns.length = .ok turn.response) :
    Heard around config (turns ++ [turn]) := by
  intro i t hi
  by_cases hlt : i < turns.length
  · rw [List.getElem?_append_left hlt] at hi
    exact h i t hi
  · rw [List.getElem?_append_right (by omega), List.getElem?_singleton] at hi
    split at hi
    · rw [show i = turns.length by omega, hreply, Option.some.inj hi]
    · simp at hi

variable {opening : List Message} {turns : List Turn} {s : ReactState tools.length}

/-- Asking the model records the transcript so far. -/
theorem Trace.ask (h : Trace around config opening turns turns.length s)
    (hmessages : s.messages = transcript opening turns) :
    Trace around config opening turns (turns.length + 1) s.ask where
  heard := h.heard
  calls := by
    rw [List.range_succ, List.map_append, ← h.calls, ReactState.ask, hmessages]
    simp
  total := h.total
  invoked := h.invoked
  rightful := h.rightful

theorem Trace.push {asked : ℕ} (h : Trace around config opening turns asked s) (message : Message) :
    Trace around config opening turns asked (s.push message) :=
  ⟨h.heard, h.calls, h.total, h.invoked, h.rightful⟩

/-- Answering a response adds it as a turn. -/
theorem Trace.answer (turn : Turn) {s' : ReactState tools.length}
    (h : Trace around config opening turns (turns.length + 1) s)
    (hreply : callCompletion around config turns.length = .ok turn.response)
    (hd : Dispatched turn.toolCalls s turn.results.toList s') :
    Trace around config opening (turns ++ [turn]) (turns ++ [turn]).length s' where
  heard := h.heard.append hreply
  calls := by
    rw [hd.calls, h.calls, List.length_append, List.length_singleton]
    refine List.map_congr_left ?_
    intro i hi
    rw [List.mem_range] at hi
    rw [List.take_append_of_le_length (by omega)]
  total := by
    rw [hd.total, h.total]
    simp
  invoked := by
    rw [hd.invoked, h.invoked]
    simp
  rightful := hd.rightful h.rightful

/-- The three ways the loop ends, after the given turns and `asked` completion calls. -/
inductive Outcome (around : Surroundings) (config : LlmConfig) (turns : List Turn) :
    ℕ → Except ToolError ReactResult → Prop
  | exhausted (error : ToolError) (hall : turns.length = config.maxIterations) :
      Outcome around config turns turns.length (.error error)
  | failed (error : ToolError) (e : String) (hlt : turns.length < config.maxIterations)
      (hreply : callCompletion around config turns.length = .error e) :
      Outcome around config turns (turns.length + 1) (.error error)
  | finished (response : Response) (hlt : turns.length < config.maxIterations)
      (hreply : callCompletion around config turns.length = .ok response)
      (hcalls : response.toolCalls = []) :
      Outcome around config turns (turns.length + 1) (.ok ⟨String.join response.textParts,
        turns.length + 1, (turns.flatMap Turn.toolCalls).length⟩)

theorem reactFrom_spec (left : ℕ) (turns : List Turn) (s : ReactState tools.length)
    (h : Trace around config opening turns turns.length s)
    (hmessages : s.messages = transcript opening turns)
    (hleft : turns.length + left = config.maxIterations) :
    ∃ turns' asked, Trace around config opening turns' asked
        (reactFrom around config tools left turns.length s).2 ∧
      Outcome around config turns' asked (reactFrom around config tools left turns.length s).1 := by
  induction left generalizing turns s with
  | zero => exact ⟨turns, turns.length, h, .exhausted _ (by omega)⟩
  | succ left ih =>
    have hasked := h.ask hmessages
    cases hr : callCompletion around config turns.length with
    | error e =>
      simp only [reactFrom, hr]
      exact ⟨turns, turns.length + 1, hasked, .failed _ e (by omega) hr⟩
    | ok response =>
      by_cases hc : response.toolCalls = []
      · have hresult : Outcome around config turns (turns.length + 1) (.ok ⟨String.join response.textParts,
            turns.length + 1, s.totalToolCalls⟩) := by
          rw [h.total]
          exact .finished response (by omega) hr hc
        simp only [reactFrom, hr, hc, List.isEmpty_nil, if_true]
        exact ⟨turns, turns.length + 1, hasked.push _, hresult⟩
      · have hheard := hasked.push (.assistant response.messageId response.choice)
        have hd := dispatchAll_spec around response.toolCalls
          (s.ask.push (.assistant response.messageId response.choice))
        simp only [reactFrom, hr, List.isEmpty_iff, hc, if_false]
        cases hm : OneOrMany.many (dispatchAll around tools response.toolCalls
            (s.ask.push (.assistant response.messageId response.choice))).1 with
        | none =>
          -- there is one result for each call, hence a message to build
          have hnil := hd.answered.length_eq
          rw [OneOrMany.many_eq_none hm, List.length_nil, List.length_eq_zero_iff] at hnil
          exact absurd hnil hc
        | some content =>
          rw [← OneOrMany.toList_of_many hm] at hd
          let turn : Turn := ⟨response, content, hd.answered⟩
          have hturn := hheard.answer turn hr hd
          have hlength : (turns ++ [turn]).length = turns.length + 1 := by simp
          have hnext := ih (turns ++ [turn]) _ (hturn.push (.user content))
            (by
              rw [ReactState.push_messages, hd.messages]
              simp [hmessages, transcript, turn, Turn.messages])
            (by omega)
          rwa [hlength] at hnext

variable (around config tools) in
theorem reactLoop_spec (system : Option String) (priorMessages : List Message) (prompt : String) :
    ∃ turns asked, Trace around config (openingMessages system priorMessages prompt) turns asked
        (reactLoop around config tools system priorMessages prompt).2 ∧
      Outcome around config turns asked (reactLoop around config tools system priorMessages prompt).1 := by
  refine reactFrom_spec config.maxIterations [] _ ⟨?_, rfl, rfl, rfl, ?_⟩ ?_ (by simp)
  · intro i turn hi
    simp at hi
  · intro v hv
    simp at hv
  · simp [transcript]

/-! ## Reading the outcome -/

theorem Heard.reply {i : ℕ} (h : Heard around config turns) (hi : i < turns.length) :
    ∃ response, callCompletion around config i = .ok response ∧ response.toolCalls ≠ [] :=
  ⟨_, h i turns[i] (List.getElem?_eq_getElem hi), turns[i].toolCalls_ne_nil⟩

theorem Heard.take (h : Heard around config turns) (k : ℕ) : Heard around config (turns.take k) := by
  intro i turn hi
  rw [List.getElem?_take] at hi
  split at hi
  · exact h i turn hi
  · cases hi

namespace Outcome
variable {asked : ℕ} {result : Except ToolError ReactResult}

end Outcome

end Spec

/-! ## The inner tools -/

/-- What the bridge uses of a registered tool and of the serialiser, and the texts of `rig`'s two tool
errors. -/
structure Bridging (T : Type) where
  description : T → String
  inputSchema : T → Json
  invoke : T → ℕ → Envelope → Except ToolError Envelope
  fromText : String → Except String Json
  toText : Json → Except String String
  jsonError : String → String
  toolCallError : String → String

/-- `KonfluxToolBridge`. -/
structure Bridge (T : Type) where
  inner : T
  parentEnv : Envelope

section Resolve
variable {T : Type} [NamedTool T] (lib : Bridging T) (registry : ToolRegistry T) (env : Envelope)
  (toolWhitelist : Option (List String))

def Bridge.call (bridge : Bridge T) (nth : ℕ) (args : String) : Except String String :=
  match lib.fromText args with
  | .error e => .error (lib.jsonError e)
  | .ok input => match lib.invoke bridge.inner nth (bridge.parentEnv.respond input) with
    | .error e => .error (lib.toolCallError e.display)
    | .ok result => (lib.toText result.payload).mapError lib.jsonError

def Bridge.toolDyn (bridge : Bridge T) : ToolDyn where
  name := NamedTool.name bridge.inner
  definition := ⟨NamedTool.name bridge.inner, lib.description bridge.inner, lib.inputSchema bridge.inner⟩
  call := bridge.call lib

def resolveTools : List (Bridge T) :=
  registry.names.filterMap fun name =>
    if name = "ai:complete" ∧ toolWhitelist.all fun wl => !wl.contains "ai:complete" then none
    else if (checkToolAccess name env.capabilities.toPatterns).isOk = false then none
    else if toolWhitelist.any fun wl => !wl.contains name then none
    else (registry.get name).map fun tool => ⟨tool, env.respond .null⟩

variable {registry env toolWhitelist}

/-- A resolved tool is registered, granted to the caller and on the list the caller gave, if any; only a
list can let `ai:complete` in. -/
theorem mem_resolveTools {bridge : Bridge T} (h : bridge ∈ resolveTools registry env toolWhitelist) :
    registry.get (NamedTool.name bridge.inner) = some bridge.inner ∧
    checkToolAccess (NamedTool.name bridge.inner) env.capabilities.toPatterns = .ok () ∧
    (∀ wl, toolWhitelist = some wl → NamedTool.name bridge.inner ∈ wl) ∧
    (toolWhitelist = none → NamedTool.name bridge.inner ≠ "ai:complete") := by
  obtain ⟨name, -, hname⟩ := List.mem_filterMap.mp h
  split at hname
  · cases hname
  · rename_i hself
    split at hname
    · cases hname
    · rename_i haccess
      split at hname
      · cases hname
      · rename_i hlisted
        obtain ⟨tool, hget, rfl⟩ := Option.map_eq_some_iff.mp hname
        have hnamed : NamedTool.name tool = name := registry.named name tool hget
        rw [hnamed]
        refine ⟨hget, ?_, ?_, ?_⟩
        · cases hc : checkToolAccess name env.capabilities.toPatterns with
          | ok u => rfl
          | error e => simp [hc, Except.isOk, Except.toBool] at haccess
        · rintro wl rfl
          simpa using hlisted
        · rintro rfl rfl
          simp at hself

/-- Through the loop a caller's model reaches only tools that the caller itself is granted. -/
theorem react_invokes_granted (around : Surroundings) (config : LlmConfig) (system : Option String)
    (priorMessages : List Message) (prompt : String) :
    ∀ v ∈ (reactLoop around config ((resolveTools registry env toolWhitelist).map (Bridge.toolDyn lib))
        system priorMessages prompt).2.invocations,
      registry.contains v.call.name ∧
      checkToolAccess v.call.name env.capabilities.toPatterns = .ok () ∧
      ∀ wl, toolWhitelist = some wl → v.call.name ∈ wl := by
  intro v hv
  obtain ⟨turns, asked, htrace, -⟩ := reactLoop_spec around config
    ((resolveTools registry env toolWhitelist).map (Bridge.toolDyn lib)) system priorMessages prompt
  have hname := htrace.rightful v hv
  obtain ⟨bridge, hmem, hbridge⟩ := List.mem_map.mp (List.get_mem _ v.index)
  rw [← hbridge, Bridge.toolDyn] at hname
  obtain ⟨hget, haccess, hlisted, -⟩ := mem_resolveTools hmem
  rw [← hname]
  refine ⟨?_, haccess, hlisted⟩
  rw [ToolRegistry.contains, ← ToolRegistry.get, hget, Option.isSome_some]

end Resolve
end Konf.Llm
