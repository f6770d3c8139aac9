import Konf.Foundations.Text
import Konf.Foundations.Transition
import Konf.Foundations.Json
import Konf.Substrate.Error
import Konf.Substrate.Capability
import Konf.Substrate.Workflow
import Konf.Parser.Schema
import Konf.Parser.Validator
import Konf.Substrate.Template
import Konf.Parser.Compiler
import Konf.Executor.Machine
import Konf.Executor.Moves
import Konf.Executor.Accounting
import Konf.Executor.ExecuteStep
import Konf.Foundations.Fallible
import Konf.Parser.Compiled
import Konf.Executor.HappensBefore
import Konf.Executor.AtMostOnce
import Konf.Executor.Activation
import Konf.Executor.Result
import Konf.Executor.StepBudget
import Konf.Executor.Recorder
import Konf.Runtime.Process
import Konf.Runtime.Scope
import Konf.Runtime.Guard
import Konf.Runtime.ScopedEngine
import Konf.Runtime.Handoff
import Konf.Runtime.Authority
import Konf.Runtime.Resolution
import Konf.Runtime.Bindings
import Konf.Runtime.Nesting
import Konf.Runtime.Identity
import Konf.Runtime.Holding
import Konf.Runtime.Deadline
import Konf.Runtime.Routes
import Konf.Runtime.GuardPolicy
import Konf.Runtime.LeastPrivilege
import Konf.Runtime.Attenuation
import Konf.Runtime.Lifecycle
import Konf.Runtime.Terminal
import Konf.Runtime.Outcome
import Konf.Runtime.Classification
import Konf.Runtime.CancelTree
import Konf.Foundations.Table
import Konf.Journal.Store
import Konf.Journal.Redb
import Konf.Journal.Indexes
import Konf.Journal.Sequence
import Konf.Journal.Queries
import Konf.Journal.Sweep
import Konf.Journal.Reconcile
import Konf.Journal.Fanout
import Konf.Runtime.Starting
import Konf.Runtime.Hooks
import Konf.Runtime.NodeEvents
import Konf.Runtime.NodeOrder
import Konf.Scheduler.Timers
import Konf.Foundations.Ranked
import Konf.Scheduler.Polling
import Konf.Scheduler.Cancelling
import Konf.Runner.Registry
import Konf.Scheduler.Tick
import Konf.Runner.Inline
import Konf.Runner.Cancelled
import Konf.Runner.Waiting
import Konf.Journal.Replicas
import Konf.Journal.Subscribe
import Konf.Runtime.Idempotency
import Konf.Runtime.Quota
import Konf.Runtime.Namespaces
import Konf.Runner.IntentTables
import Konf.Runner.IntentWriters
import Konf.Runner.Intents
import Konf.Mcp.Names
import Konf.Init.Reload
import Konf.Foundations.Search
import Konf.Substrate.Validate
import Konf.Parser.Acceptance
import Konf.Executor.DeclaredTools
import Konf.Executor.ControlFlow
import Konf.Runtime.Globs
import Konf.Executor.Branches
import Konf.Parser.Reachability
import Konf.Substrate.ControlGraph
import Konf.Executor.TaskLoop
import Konf.Executor.Pipes
import Konf.Parser.Positions
import Konf.Parser.Dependencies
import Konf.Substrate.Condition
import Konf.Substrate.Grammar
import Konf.Substrate.Literals
import Konf.Substrate.Equality
import Konf.Runtime.Bisimulation
import Konf.Runtime.Budget
import Konf.Http.ValidateUrl
import Konf.Init.Schedules
import Konf.Memory.Session
import Konf.Memory.SessionOrder
import Konf.Memory.Nodes
import Konf.Memory.Search
import Konf.Journal.Filtered
import Konf.Foundations.Codec
import Konf.Journal.Layouts
import Konf.Executor.Conditions
import Konf.Executor.Retries
import Konf.Executor.Backoff
import Konf.Llm.Validate
import Konf.Llm.React
import Konf.Llm.Complete
import Konf.Foundations.Broadcast
import Konf.Runtime.EventBus
import Konf.Backend.Monitor
import Konf.Journal.Lagging
import Konf.Journal.Surreal
import Konf.Journal.Mirror
import Konf.Memory.Tools
import Konf.Memory.Isolation
import Konf.Memory.Containment
import Konf.Executor.Sequential
import Konf.Backend.Auth
import Konf.Backend.Chat
import Konf.Runtime.Fleet
import Konf.Runtime.Waits
import Konf.Foundations.Record
import Konf.Runtime.Interaction
import Konf.Runtime.AuditTrail
import Konf.Runtime.NodeRows
import Konf.Scheduler.Durable
import Konf.Scheduler.Spacing
import Konf.Init.Interpolate
