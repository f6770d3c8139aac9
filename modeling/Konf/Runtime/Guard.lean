import Konf.Foundations.Text
import Konf.Foundations.Json
import Konf.Substrate.Error

/-! # Tool guards

Model of `konf-runtime/src/guard.rs`: predicates on a JSON payload, ordered deny and allow rules,
and the default action. -/

namespace Konf.Runtime
open Konf.Text Konf.Substrate
set_option autoImplicit false

/-- The value at a dot-separated path. An array is indexed by a number. -/
def resolvePath (value : Json) (path : String) : Option Json :=
  (splitChar '.' path.toList).foldlM (fun (current : Json) segment =>
    match current with
    | .obj _ => current.get (String.ofList segment)
    | .arr items => (parseU64 (String.ofList segment)).bind fun i => items[i]?
    | _ => none) value

/-! ## Globs -/

/-- The state of the matching loop: positions in pattern and text, and the last `*` with the text
position it was tried at. -/
structure GlobState where
  pi : ℕ
  ti : ℕ
  star : Option (ℕ × ℕ)

/-- One iteration of the loop; `none` is the early `return false`. -/
def GlobState.step (p t : List Char) (s : GlobState) : Option GlobState :=
  if s.pi < p.length ∧ (p[s.pi]? = some '?' ∨ p[s.pi]? = t[s.ti]?) then
    some { s with pi := s.pi + 1, ti := s.ti + 1 }
  else if s.pi < p.length ∧ p[s.pi]? = some '*' then
    some { pi := s.pi + 1, ti := s.ti, star := some (s.pi + 1, s.ti) }
  else match s.star with
    | some (sp, st) => some { pi := sp, ti := st + 1, star := some (sp, st + 1) }
    | none => none

/-- The loop, for a number of iterations; `none` when they do not suffice. -/
def globLoop (p t : List Char) : ℕ → GlobState → Option Bool
  | 0, _ => none
  | fuel + 1, s =>
    if s.ti < t.length then
      match s.step p t with
      | some s' => globLoop p t fuel s'
      | none => some false
    else some ((p.drop s.pi).all fun c => c == '*')

-- between two backtracks the pattern position grows, and each backtrack moves on in the text
def globFuel (p t : List Char) : ℕ := (t.length + 1) * (p.length + 1) + 1

/-- `*` stands for any characters, `?` for one. -/
def globMatches (pattern text : String) : Bool :=
  globLoop pattern.toList text.toList (globFuel pattern.toList text.toList) ⟨0, 0, none⟩ = some true

/-! ## Predicates and rules -/

inductive Predicate
  | contains (path value : String)
  | matches (path pattern : String)
  | equals (path : String) (value : Json)
  | exists (path : String)
  | not (predicate : Predicate)
  | all (predicates : List Predicate)
  | any (predicates : List Predicate)

mutual
def Predicate.holds (input : Json) : Predicate → Bool
  | .contains path value =>
    ((resolvePath input path).bind Json.asStr).any fun s => Text.contains s value
  | .matches path pattern =>
    ((resolvePath input path).bind Json.asStr).any fun s => globMatches pattern s
  | .equals path value => (resolvePath input path).any fun v => decide (v = value)
  | .exists path => (resolvePath input path).any fun v => !v.isNull
  | .not predicate => !predicate.holds input
  | .all predicates => allHold input predicates
  | .any predicates => anyHolds input predicates
def allHold (input : Json) : List Predicate → Bool
  | [] => true
  | p :: ps => p.holds input && allHold input ps
def anyHolds (input : Json) : List Predicate → Bool
  | [] => false
  | p :: ps => p.holds input || anyHolds input ps
end

inductive Rule
  | deny (predicate : Predicate) (message : String)
  | allow (predicate : Predicate)

inductive DefaultAction
  | allow
  | deny
deriving DecidableEq, Repr

/-- The first rule whose predicate holds decides; without one, the default does. -/
def evaluateRules (defaultAction : DefaultAction) (toolName : String) (input : Json) :
    List Rule → Except ToolError Unit
  | [] => match defaultAction with
    | .allow => .ok ()
    | .deny => .error (.capabilityDenied ("guard denied: no rule matched for tool '" ++ toolName ++
        "' (default: deny)"))
  | .deny predicate message :: rules =>
    if predicate.holds input then .error (.capabilityDenied ("guard denied: " ++ message))
    else evaluateRules defaultAction toolName input rules
  | .allow predicate :: rules =>
    if predicate.holds input then .ok ()
    else evaluateRules defaultAction toolName input rules

end Konf.Runtime
