import Konf.Foundations.Json
import Konf.Substrate.Error

/-! # Event streams

`StreamEvent` (`konflux-substrate/src/stream.rs`), and what `Engine::run` makes of the events and of
the executor's result once the stream has closed (`engine.rs`). -/

namespace Konf.Substrate
set_option autoImplicit false

inductive ProgressType
  | textDelta
  | toolStart
  | toolEnd
  | status
deriving DecidableEq, Repr

inductive StreamEvent
  | start (workflowId : String)
  | progress (nodeId : String) (eventType : ProgressType) (data : Json)
  | done (output : Json)
  | error (code message : String) (retryable : Bool)

def StreamEvent.isTerminal : StreamEvent → Bool
  | .done _ | .error _ _ _ => true
  | .start _ | .progress _ _ _ => false

def KonfluxError.isCancelled : KonfluxError → Bool
  | .execution (.cancelled _) => true
  | _ => false

/-! ## Collecting -/

/-- The variables of the loop in `Engine::run` that reads the stream. -/
structure Collected where
  finalOutput : Json
  error : Option String

def Collected.empty : Collected := ⟨.null, none⟩

def Collected.absorb (c : Collected) : StreamEvent → Collected
  | .done output => { c with finalOutput := output }
  | .error _ message _ => { c with error := some message }
  | .start _ | .progress _ _ _ => c

def collect (events : List StreamEvent) : Collected := events.foldl Collected.absorb .empty

/-- What `Engine::run` returns when the executor has returned and the stream has closed. -/
def Collected.result (c : Collected) (workflowId : String) :
    Except KonfluxError Json → Except KonfluxError Json
  | .error e => .error e
  | .ok _ => match c.error with
    | some message => .error (.execution (.nodeFailed workflowId "stream" message))
    | none => .ok c.finalOutput

/-- The event with which `Engine::run_streaming` reports an error of the executor. -/
def errorEvent (e : KonfluxError) : StreamEvent := .error "execution_error" e.display false

section Collect
variable {events : List StreamEvent}

theorem Collected.absorb_other (c : Collected) {e : StreamEvent} (h : e.isTerminal = false) :
    c.absorb e = c := by
  cases e with
  | done | error => cases h
  | start | progress => rfl

theorem collect_filter (events : List StreamEvent) :
    collect (events.filter StreamEvent.isTerminal) = collect events := by
  unfold collect
  generalize Collected.empty = c
  induction events generalizing c with
  | nil => rfl
  | cons e events ih =>
    cases he : e.isTerminal with
    | true =>
      rw [List.filter_cons_of_pos he, List.foldl_cons, List.foldl_cons]
      exact ih _
    | false =>
      rw [List.filter_cons_of_neg (by simp [he]), List.foldl_cons, Collected.absorb_other c he]
      exact ih _

theorem Collected.absorb_error_isSome (c : Collected) (e : StreamEvent) (h : c.error.isSome = true) :
    (c.absorb e).error.isSome = true := by
  cases e with
  | error => rfl
  | done | start | progress => exact h

theorem foldl_error_isSome (events : List StreamEvent) (c : Collected) (h : c.error.isSome = true) :
    (events.foldl Collected.absorb c).error.isSome = true := by
  induction events generalizing c with
  | nil => exact h
  | cons e events ih => exact ih _ (c.absorb_error_isSome e h)

theorem collect_error_isSome {code message : String} {retryable : Bool}
    (h : .error code message retryable ∈ events) : (collect events).error.isSome = true := by
  obtain ⟨before, after, rfl⟩ := List.append_of_mem h
  rw [collect, List.foldl_append, List.foldl_cons]
  exact foldl_error_isSome after _ rfl

variable (c : Collected) (workflowId : String) (x : Except KonfluxError Json)

theorem Collected.result_ok_iff {output : Json} : c.result workflowId x = .ok output ↔
    (∃ out, x = .ok out) ∧ c = ⟨output, none⟩ := by
  obtain ⟨final, error⟩ := c
  cases x with
  | error err => simp [Collected.result]
  | ok out => cases error <;> simp [Collected.result]

/-- Only the executor's own cancellation is one. -/
theorem Collected.result_cancelled_iff :
    (∃ e, c.result workflowId x = .error e ∧ e.isCancelled = true) ↔
      ∃ e, x = .error e ∧ e.isCancelled = true := by
  obtain ⟨final, error⟩ := c
  cases x with
  | error err => simp [Collected.result]
  | ok out => cases error <;> simp [Collected.result, KonfluxError.isCancelled]

end Collect

end Konf.Substrate
