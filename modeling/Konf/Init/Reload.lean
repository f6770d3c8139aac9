import Mathlib.Data.List.TakeWhile
import Konf.Runtime.Authority

/-! # Reloading the product configuration

Model of `ConfigReloadTool::invoke`, `register_workflows` and `apply_tool_guards` of
`konf-init/src/lib.rs`, and of the steps of `boot` that read the same files. A reload takes all
`workflow:*` tools out of the registry and registers what it finds in `workflows/`, file by file; an
I/O error ends the scan where it is. Guards are replaced only where there is a `tools.yaml` with
guards in it.

The directory is listed in the order in which `read_dir` gives its entries. What serde makes of a text
is a parameter. The resources that a scan registers next to the tools are left out. -/

namespace Konf.Init
open Konf.Text Konf.Substrate Konf.Runtime Konf.Parser
set_option autoImplicit false

/-! ## Files -/

structure ToolGuardConfig where
  rules : List Rule
  default_ : DefaultAction
  alias_ : Option String

/-- The part of `tools.yaml` that a reload reads. -/
structure ProductConfig where
  toolGuards : StrMap ToolGuardConfig

def ProductConfig.default : ProductConfig := ⟨∅⟩

/-- The `serde_yaml` crate, and the environment. -/
structure Yaml where
  readSchema : String → Except String WorkflowSchema
  readProduct : String → Except String ProductConfig
  env : String → Option String

/-- An entry of `workflows/`: one that cannot be read, or a file with what reading it gives. -/
inductive DirEntry
  | failed (error : String)
  | file (path : String) (contents : Except String String)

/-- `workflows` is there when `workflows/` is a directory, and `toolsYaml` when the file exists. -/
structure Disk where
  workflows : Option (Except String (List DirEntry))
  toolsYaml : Option (Except String String)

/-- `Path::extension`: what follows the last dot of the file name, unless the name begins with it. -/
def extension (path : String) : Option String :=
  let reversed := path.toList.reverse.takeWhile (· ≠ '/')
  match reversed.dropWhile (· ≠ '.') with
  | [] | [_] => none
  | _ :: _ => some (String.ofList (reversed.takeWhile (· ≠ '.')).reverse)

def isYaml (path : String) : Bool :=
  extension path == some "yaml" || extension path == some "yml"

/-- The text between `${` and `}`: the variable, else the default after `:-`, else nothing. -/
def envValue (env : String → Option String) (inner : List Char) : List Char :=
  match splitOnce [':', '-'] inner with
  | some (name, default_) => ((env (String.ofList name)).map String.toList).getD default_
  | none => ((env (String.ofList inner)).map String.toList).getD []

/-- The loop of `interpolate_env_vars`, with at most as many rounds as there are characters. -/
def interpolateFrom (env : String → Option String) : ℕ → List Char → List Char
  | 0, _ => []
  | _ + 1, [] => []
  | fuel + 1, c :: rest =>
    if c = '$' ∧ rest.head? = some '\x7b' then
      match splitOnce ['\x7d'] rest.tail with
      | some (inner, after) => envValue env inner ++ interpolateFrom env fuel after
      -- an unclosed brace: the rest stays as it is
      | none => c :: rest
    else c :: interpolateFrom env fuel rest

def interpolateEnvVars (env : String → Option String) (input : String) : String :=
  String.ofList (interpolateFrom env input.toList.length input.toList)

/-! ## Registering workflows -/

/-- `Engine::parse_yaml`. -/
def parseYaml (yaml : Yaml) (sys : System) (text : String) : Except KonfluxError Workflow :=
  if sys.config.maxYamlSize < byteLen text.toList then
    .error (.parse (.invalidYaml ("YAML size (" ++ toString (byteLen text.toList) ++
      " bytes) exceeds maximum (" ++ toString sys.config.maxYamlSize ++ " bytes)")))
  else match yaml.readSchema text with
    | .error e => .error (.parse (.invalidYaml e))
    | .ok schema => parse sys.lib sys.config schema

/-- The scan of `register_workflows`: what it returns, and the registry it leaves behind. -/
def registerEntries (parseText : String → Except KonfluxError Workflow) :
    List DirEntry → ToolRegistry BaseTool → Except String Unit × ToolRegistry BaseTool
  | [], r => (.ok (), r)
  | .failed e :: _, r => (.error e, r)
  | .file path contents :: rest, r =>
    if isYaml path then
      match contents with
      | .error e => (.error ("Failed to read " ++ path ++ ": " ++ e), r)
      | .ok text => match parseText text with
        -- only logged
        | .error _ => registerEntries parseText rest r
        | .ok wf =>
          registerEntries parseText rest (if wf.registerAsTool then r.register (.workflow wf) else r)
    else registerEntries parseText rest r

def registerWorkflows (parseText : String → Except KonfluxError Workflow)
    (dir : Except String (List DirEntry)) (r : ToolRegistry BaseTool) :
    Except String Unit × ToolRegistry BaseTool :=
  match dir with
  | .error e => (.error ("Failed to read workflows directory: " ++ e), r)
  | .ok entries => registerEntries parseText entries r

/-! ## Guards -/

def ToolGuardConfig.entry (cfg : ToolGuardConfig) : ToolGuardEntry := ⟨cfg.rules, cfg.default_, cfg.alias_⟩

def ProductConfig.guards (config : ProductConfig) : StrMap ToolGuardEntry where
  entries := config.toolGuards.entries.map fun e => ⟨e.1, e.2.entry⟩
  nodupKeys := by
    have hkeys : (config.toolGuards.entries.map fun e =>
        (⟨e.1, e.2.entry⟩ : Sigma fun _ : String => ToolGuardEntry)).keys =
        config.toolGuards.entries.keys := by
      rw [List.keys, List.map_map]
      rfl
    change (List.keys _).Nodup
    rw [hkeys]
    exact config.toolGuards.keys_nodup

def applyToolGuards (config : ProductConfig) (guards : StrMap ToolGuardEntry) : StrMap ToolGuardEntry :=
  if config.toolGuards.entries.isEmpty then guards else config.guards

/-- What a reload makes of `tools.yaml`; anything that goes wrong is only logged. -/
def reloadGuards (yaml : Yaml) (toolsYaml : Option (Except String String))
    (guards : StrMap ToolGuardEntry) : StrMap ToolGuardEntry :=
  match toolsYaml with
  | some (.ok contents) => match yaml.readProduct (interpolateEnvVars yaml.env contents) with
    | .ok config => applyToolGuards config guards
    | .error _ => guards
  | _ => guards

/-! ## Reload and boot -/

def isWorkflowTool (name : String) : Bool := startsWith name "workflow:"

def removeWorkflowTools (r : ToolRegistry BaseTool) : ToolRegistry BaseTool :=
  (r.names.filter isWorkflowTool).foldl ToolRegistry.remove r

/-- `ConfigReloadTool::invoke`: the response, and the system after it. -/
def reload (yaml : Yaml) (disk : Disk) (sys : System) : Except ToolError Json × System :=
  match disk.workflows with
  | none => (.ok (.obj [("reloaded", .bool true), ("workflows_loaded", Json.ofNat 0),
      ("message", .str "No workflows directory found")]), sys)
  | some dir =>
    let removed := sys.registry.names.filter isWorkflowTool
    let scan := registerWorkflows (parseYaml yaml sys) dir (removeWorkflowTools sys.registry)
    match scan.1 with
    | .error e =>
      (.error (.executionFailed ("Config reload failed: " ++ e) true), { sys with registry := scan.2 })
    | .ok _ =>
      (.ok (.obj [("reloaded", .bool true), ("workflows_removed", Json.ofNat removed.length),
        ("workflows_registered", Json.ofNat (scan.2.names.filter isWorkflowTool).length),
        ("total_tools", Json.ofNat scan.2.names.length)]),
      { sys with registry := scan.2, guards := reloadGuards yaml disk.toolsYaml sys.guards })

/-- Step 3 of `boot`. -/
def loadProductConfig (yaml : Yaml) : Option (Except String String) → Except String ProductConfig
  | none => .ok .default
  | some (.error e) => .error ("Failed to read tools.yaml: " ++ e)
  | some (.ok contents) =>
    match yaml.readProduct (interpolateEnvVars yaml.env contents) with
    | .error e => .error ("Failed to parse tools.yaml: " ++ e)
    | .ok config => .ok config

/-- The steps of `boot` that read the configuration, on a system that has its other tools. -/
def boot (yaml : Yaml) (disk : Disk) (sys : System) : Except String System := do
  let config ← loadProductConfig yaml disk.toolsYaml
  let registry ← match disk.workflows with
    | none => .ok sys.registry
    | some dir =>
      let scan := registerWorkflows (parseYaml yaml sys) dir sys.registry
      scan.1.map fun _ => scan.2
  .ok { sys with registry := registry, guards := applyToolGuards config sys.guards }

/-! ## What a scan registers -/

def DirEntry.readable : DirEntry → Bool
  | .failed _ => false
  | .file path contents => !isYaml path || contents.isOk

/-- The tool of a file: a workflow that parses and is to be registered. -/
def fileTool (parseText : String → Except KonfluxError Workflow) : DirEntry → Option BaseTool
  | .failed _ | .file _ (.error _) => none
  | .file path (.ok text) =>
    if isYaml path then
      match parseText text with
      | .ok wf => if wf.registerAsTool then some (.workflow wf) else none
      | .error _ => none
    else none

section Scan
variable {parseText : String → Except KonfluxError Workflow}

theorem registerEntries_readable {e : DirEntry} (h : e.readable = true) (rest : List DirEntry)
    (r : ToolRegistry BaseTool) :
    registerEntries parseText (e :: rest) r =
      registerEntries parseText rest (r.registerAll (fileTool parseText e).toList) := by
  cases e with
  | failed error => cases h
  | file path contents =>
    cases hyaml : isYaml path with
    | false => cases contents <;> simp [registerEntries, fileTool, hyaml, ToolRegistry.registerAll]
    | true =>
      cases contents with
      | error error =>
        rw [DirEntry.readable, hyaml] at h
        cases h
      | ok text =>
        cases hparse : parseText text with
        | error error => simp [registerEntries, fileTool, hyaml, hparse, ToolRegistry.registerAll]
        | ok wf =>
          cases hflag : wf.registerAsTool <;>
            simp [registerEntries, fileTool, hyaml, hparse, hflag, ToolRegistry.registerAll]

theorem registerEntries_unreadable (parseText : String → Except KonfluxError Workflow) {e : DirEntry}
    (h : e.readable = false) (rest : List DirEntry) (r : ToolRegistry BaseTool) :
    ∃ error, registerEntries parseText (e :: rest) r = (.error error, r) := by
  cases e with
  | failed error => exact ⟨error, rfl⟩
  | file path contents =>
    rw [DirEntry.readable, Bool.or_eq_false_iff, Bool.not_eq_false'] at h
    cases contents with
    | error error =>
      refine ⟨"Failed to read " ++ path ++ ": " ++ error, ?_⟩
      simp only [registerEntries, h.1, if_true]
    | ok text => cases h.2

/-- A scan registers the tools of the files up to the first entry that cannot be read. -/
theorem registerEntries_eq (parseText : String → Except KonfluxError Workflow)
    (entries : List DirEntry) (r : ToolRegistry BaseTool) :
    (registerEntries parseText entries r).1.isOk = entries.all DirEntry.readable ∧
      (registerEntries parseText entries r).2 =
        r.registerAll ((entries.takeWhile DirEntry.readable).filterMap (fileTool parseText)) := by
  induction entries generalizing r with
  | nil => exact ⟨rfl, rfl⟩
  | cons e rest ih =>
    cases hread : e.readable with
    | false =>
      obtain ⟨error, hstop⟩ := registerEntries_unreadable parseText hread rest r
      rw [hstop, List.all_cons, hread, List.takeWhile_cons_of_neg (by simp [hread])]
      exact ⟨rfl, rfl⟩
    | true =>
      obtain ⟨hok, hregistry⟩ := ih (r.registerAll (fileTool parseText e).toList)
      rw [registerEntries_readable hread, List.all_cons, hread, Bool.true_and,
        List.takeWhile_cons_of_pos hread, hok, hregistry]
      refine ⟨rfl, ?_⟩
      cases htool : fileTool parseText e with
      | none => rw [List.filterMap_cons_none htool]; rfl
      | some tool => rw [List.filterMap_cons_some htool]; rfl

theorem fileTool_name {e : DirEntry} {tool : BaseTool} (h : fileTool parseText e = some tool) :
    isWorkflowTool tool.name = true := by
  have hworkflow : ∃ wf, tool = .workflow wf := by
    unfold fileTool at h
    split at h
    · cases h
    · cases h
    · split_ifs at h
      split at h
      · split_ifs at h
        exact ⟨_, (Option.some.inj h).symm⟩
      · cases h
  obtain ⟨wf, rfl⟩ := hworkflow
  rw [isWorkflowTool, startsWith_iff, BaseTool.name, workflowToolName, String.toList_append]
  exact List.prefix_append _ _

end Scan

def Disk.loadedTools (disk : Disk) (parseText : String → Except KonfluxError Workflow) :
    List BaseTool :=
  match disk.workflows with
  | some (.ok entries) => (entries.takeWhile DirEntry.readable).filterMap (fileTool parseText)
  | _ => []

section Registry
variable {parseText : String → Except KonfluxError Workflow} {r : ToolRegistry BaseTool} {disk : Disk}

theorem loadedTools_name {tool : BaseTool} (h : tool ∈ disk.loadedTools parseText) :
    isWorkflowTool tool.name = true := by
  unfold Disk.loadedTools at h
  split at h
  · obtain ⟨e, -, he⟩ := List.mem_filterMap.mp h
    exact fileTool_name he
  · cases h

theorem registerWorkflows_registry {dir : Except String (List DirEntry)}
    (h : disk.workflows = some dir) :
    (registerWorkflows parseText dir r).2 = r.registerAll (disk.loadedTools parseText) := by
  cases dir with
  | error e =>
    rw [Disk.loadedTools, h]
    rfl
  | ok entries =>
    rw [Disk.loadedTools, h]
    exact (registerEntries_eq parseText entries r).2

theorem get_removeWorkflowTools (name : String) :
    (removeWorkflowTools r).get name = if isWorkflowTool name then none else r.get name := by
  rw [removeWorkflowTools, ToolRegistry.get_removeAll]
  simp only [List.mem_filter]
  by_cases hmem : name ∈ r.names
  · simp [hmem]
  · have hnone : r.get name = none := AList.lookup_eq_none.mpr hmem
    simp [hmem, hnone]

/-- A scan decides the `workflow:*` tools and leaves the others. -/
theorem get_scanned {tools : List BaseTool} (h : ∀ tool ∈ tools, isWorkflowTool tool.name = true)
    (name : String) :
    (r.registerAll tools).get name =
      if isWorkflowTool name then ((ToolRegistry.new.registerAll tools).get name).or (r.get name)
      else r.get name := by
  rw [ToolRegistry.get_registerAll, ToolRegistry.get_registerAll, ToolRegistry.get_new, Option.or_none]
  split_ifs with hname
  · rfl
  · have hnone : (tools.reverse.find? fun t => NamedTool.name t == name) = none := by
      rw [List.find?_eq_none]
      intro tool htool heq
      have hsame : tool.name = name := beq_iff_eq.mp heq
      exact hname (hsame ▸ h tool (List.mem_reverse.mp htool))
    rw [hnone]
    rfl

theorem get_rescanned (name : String) :
    ((removeWorkflowTools r).registerAll (disk.loadedTools parseText)).get name =
      if isWorkflowTool name then (ToolRegistry.new.registerAll (disk.loadedTools parseText)).get name
      else r.get name := by
  rw [get_scanned (fun tool => loadedTools_name), get_removeWorkflowTools]
  split_ifs
  · rw [Option.or_none]
  · rfl

end Registry

/-! ## Failure -/

theorem reload_error {yaml : Yaml} {disk : Disk} {sys : System} {e : ToolError}
    (h : (reload yaml disk sys).1 = .error e) :
    (reload yaml disk sys).2 = { sys with
      registry := (removeWorkflowTools sys.registry).registerAll
        (disk.loadedTools (parseYaml yaml sys)) } := by
  unfold reload at h ⊢
  cases hdir : disk.workflows with
  | none =>
    rw [hdir] at h
    cases h
  | some dir =>
    simp only [hdir] at h ⊢
    split
    · rw [registerWorkflows_registry hdir]
    · rename_i hok
      rw [hok] at h
      cases h

/-- A reload that fails leaves tools and guards as they were exactly when the `workflow:*` tools of
before are those of the files that it has read up to the failure. -/
theorem reload_failure_atomic_iff (yaml : Yaml) (disk : Disk) (sys : System) (e : ToolError)
    (h : (reload yaml disk sys).1 = .error e) :
    ((∀ name, (reload yaml disk sys).2.registry.get name = sys.registry.get name) ∧
        (reload yaml disk sys).2.guards = sys.guards) ↔
      ∀ name, isWorkflowTool name = true → sys.registry.get name =
        (ToolRegistry.new.registerAll (disk.loadedTools (parseYaml yaml sys))).get name := by
  rw [reload_error h]
  simp only [get_rescanned, and_true]
  constructor
  · intro hsame name hname
    have hget := hsame name
    rw [if_pos hname] at hget
    exact hget.symm
  · intro hsame name
    split_ifs with hname
    · exact (hsame name hname).symm
    · rfl

/-! ### A file that cannot be read -/

def noTexts : Yaml := ⟨fun _ => .error "EOF", fun _ => .ok .default, fun _ => none⟩

def unreadableDisk : Disk := ⟨some (.ok [.file "workflows/inner.yaml" (.error "permission denied")]), none⟩

/-- With no workflow tools there is nothing to lose. -/
theorem reload_failure_harmless :
    (∃ e, (reload noTexts unreadableDisk (baseSystem [.plain "echo"])).1 = .error e) ∧
      ∀ name, (reload noTexts unreadableDisk (baseSystem [.plain "echo"])).2.registry.get name =
        (baseSystem [.plain "echo"]).registry.get name := by
  refine ⟨⟨_, rfl⟩, ?_⟩
  refine ((reload_failure_atomic_iff noTexts unreadableDisk (baseSystem [.plain "echo"]) _ rfl).mpr
    ?_).1
  intro name hname
  have hother : name ≠ "echo" := by
    rintro rfl
    cases hname
  have hecho : ("echo" == name) = false := beq_eq_false_iff_ne.mpr hother.symm
  change ((baseSystem [.plain "echo"]).registry.get name) = (ToolRegistry.new.registerAll []).get name
  rw [show (baseSystem [.plain "echo"]).registry = ToolRegistry.new.registerAll [.plain "echo"] from rfl,
    ToolRegistry.get_registerAll, ToolRegistry.get_registerAll]
  simp [NamedTool.name, BaseTool.name, hecho]

theorem reload_failure_loses_tool :
    (∃ e, (reload noTexts unreadableDisk demoSystem).1 = .error e) ∧
      ¬ ((∀ name, (reload noTexts unreadableDisk demoSystem).2.registry.get name =
          demoSystem.registry.get name) ∧
        (reload noTexts unreadableDisk demoSystem).2.guards = demoSystem.guards) := by
  refine ⟨⟨_, rfl⟩, ?_⟩
  rintro ⟨hsame, -⟩
  have hinner := congrArg Option.isSome (hsame "workflow:inner")
  have hlost : ((reload noTexts unreadableDisk demoSystem).2.registry.get "workflow:inner").isSome =
      false := by decide +kernel
  have hheld : (demoSystem.registry.get "workflow:inner").isSome = true := by decide +kernel
  rw [hlost, hheld] at hinner
  cases hinner

/-! ## Success -/

/-- Nothing fails to be read, and `tools.yaml` parses if it is there. -/
def Disk.Readable (disk : Disk) (yaml : Yaml) : Prop :=
  (∀ dir, disk.workflows = some dir → ∃ entries, dir = .ok entries ∧
    entries.all DirEntry.readable = true) ∧
  ∃ config, loadProductConfig yaml disk.toolsYaml = .ok config

def Disk.declaredTools (disk : Disk) (parseText : String → Except KonfluxError Workflow) :
    List BaseTool :=
  match disk.workflows with
  | some (.ok entries) => entries.filterMap (fileTool parseText)
  | _ => []

def Disk.guards (disk : Disk) (yaml : Yaml) : StrMap ToolGuardEntry :=
  match loadProductConfig yaml disk.toolsYaml with
  | .ok config => config.guards
  | .error _ => ∅

/-- The files say something about everything that there was: without a directory there were no
workflow tools and the guards are those of `tools.yaml` already, and with one there are guards in
`tools.yaml` or there were none before. -/
def Disk.Covers (disk : Disk) (yaml : Yaml) (sys : System) : Prop :=
  match disk.workflows with
  | none => (∀ name, isWorkflowTool name = true → sys.registry.get name = none) ∧
      ∀ name, sys.guards.lookup name = (disk.guards yaml).lookup name
  | some _ => (disk.guards yaml).entries ≠ [] ∨ sys.guards.entries = []

section Success
variable {yaml : Yaml} {disk : Disk} {sys : System}

theorem Disk.Readable.loadedTools (h : disk.Readable yaml)
    (parseText : String → Except KonfluxError Workflow) :
    disk.loadedTools parseText = disk.declaredTools parseText := by
  unfold Disk.loadedTools Disk.declaredTools
  cases hdir : disk.workflows with
  | none => rfl
  | some dir =>
    obtain ⟨entries, rfl, hall⟩ := h.1 dir hdir
    have htake : entries.takeWhile DirEntry.readable = entries :=
      List.takeWhile_eq_self_iff.mpr (List.all_eq_true.mp hall)
    simp only [htake]

end Success

end Konf.Init
