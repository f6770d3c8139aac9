import Konf.Foundations.Text
import Konf.Substrate.Workflow

/-! # Template resolution

Model of `konflux-substrate/src/template.rs`. Rendering itself is `minijinja`, and
`char::is_alphanumeric` is a Unicode table: both enter through `Externals`, as arbitrary
functions. -/

namespace Konf.Substrate
open Konf.Text
set_option autoImplicit false

abbrev Outputs : Type := StrMap Json

/-- Library functions the substrate calls and this development does not define. -/
structure Externals where
  isAlphanumeric : Char → Bool
  render : String → Outputs → Except String String
  parseUuid : String → Option Uuid
  formatUuid : Uuid → String

-- the two-character delimiters of a template expression
def openTag : String := "\x7b\x7b"

def closeTag : String := "\x7d\x7d"

def hasTemplates (s : String) : Bool := contains s openTag && contains s closeTag

/-- The path of a string that is exactly one reference expression. -/
def tryPureRef (s : String) : Option String := do
  let inner ← stripPrefix (trim s) openTag
  let inner ← stripSuffix inner closeTag
  let inner := trim inner
  if contains inner openTag || contains inner closeTag then none
  else if inner.toList.any (fun c =>
      c ∈ ['|', '(', ')', '[', ']', '+', '-', '=', '<', '>', ',']) then none
  else if inner.toList.isEmpty then none
  else if (splitChar '.' inner.toList).all (fun seg =>
      !seg.isEmpty && seg.all (fun c => c.isAlphanum || c == '_') &&
        !seg.head?.any Char.isDigit) then some inner
  else none

/-- `"step1.output.text"` reads `state["step1"]["output"]["text"]`. -/
def resolveRef (path : String) (state : Outputs) : Option Json :=
  match splitChar '.' path.toList with
  | [] => none
  | root :: parts => do
    let current ← state.lookup (String.ofList root)
    parts.foldlM (fun (v : Json) part => v.get (String.ofList part)) current

mutual
def resolveJsonTemplates (lib : Externals) (state : Outputs) : Json → Except String Json
  | .str s =>
    if hasTemplates s then
      match (tryPureRef s).bind fun path => resolveRef path state with
      | some value => .ok value
      | none => (lib.render s state).map .str
    else .ok (.str s)
  | .arr items => (resolveItems lib state items).map .arr
  | .obj fields => (resolveFields lib state fields).map .obj
  | .null => .ok .null
  | .bool b => .ok (.bool b)
  | .num n => .ok (.num n)
def resolveItems (lib : Externals) (state : Outputs) : List Json → Except String (List Json)
  | [] => .ok []
  | v :: vs => do
    let v' ← resolveJsonTemplates lib state v
    let vs' ← resolveItems lib state vs
    .ok (v' :: vs')
def resolveFields (lib : Externals) (state : Outputs) :
    List (String × Json) → Except String (List (String × Json))
  | [] => .ok []
  | (k, v) :: fs => do
    let v' ← resolveJsonTemplates lib state v
    let fs' ← resolveFields lib state fs
    .ok ((k, v') :: fs')
end

def resolveExpr (lib : Externals) (state : Outputs) : Expr → Except String Json
  | .literal s => .ok (.str s)
  | .ref path => match resolveRef path state with
    | some v => .ok v
    | none => .error ("unresolved reference: " ++ path)
  | .template tmpl => (lib.render tmpl state).map .str
  | .json val => resolveJsonTemplates lib state val

/-- Resolve every input of a step; the payload is built as a JSON object. -/
def resolveInputs (lib : Externals) (inputs : StrMap Expr) (state : Outputs) :
    Except String (List (String × Json)) :=
  inputs.entries.foldlM (fun fields e => do
    let value ← resolveExpr lib state e.2
    .ok (Json.insertField e.1 value fields)) []

end Konf.Substrate
