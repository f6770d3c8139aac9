import Konf.Foundations.Json
import Konf.Foundations.Text

/-! # Conditions

Model of `konflux-substrate/src/expr.rs`: the evaluator of `when` and `until` conditions. It has no
tokenizer. It looks for operator texts in the condition, from the weakest to the strongest, and
evaluates the text on both sides. Floating point enters through `Floats`: the numerals `f64` accepts
are defined here, their values and the arithmetic are not. -/

namespace Konf.Condition
open Konf.Text
set_option autoImplicit false

inductive ExprValue (F : Type)
  | bool (b : Bool)
  | int (i : Int)
  | float (f : F)
  | string (s : String)
  | list (items : List (ExprValue F))
  | map (entries : List (String × ExprValue F))
  | json (j : Json)
  | null

-- the two other errors of the source are never built
inductive ExprError
  | typeError (expected got : String)
  | unknownReference (reference : String)
deriving DecidableEq

def ExprError.display : ExprError → String
  | .typeError expected got => "type error: expected " ++ expected ++ ", got " ++ got
  | .unknownReference reference => "unknown reference: " ++ reference

/-- `f64`, and the texts that the standard library makes of values and of parse errors. -/
structure Floats (F : Type) where
  ofInt : Int → F
  ofBits : UInt64 → F
  ofNumeral : List Char → F
  nonzero : F → Bool
  /-- `(a - b).abs() < f64::EPSILON` -/
  close : F → F → Bool
  eq : F → F → Bool
  lt : F → F → Bool
  debug : ExprValue F → String
  numeralError : String → String

/-! ## Numerals -/

/-- `s.parse::<i64>()` -/
def parseI64 (s : List Char) : Option Int :=
  let number (digits : List Char) : Option ℕ := if digits.isEmpty then none else digitsValue digits 0
  match s with
  | '-' :: digits => ((number digits).filter fun n => n ≤ 2 ^ 63).map fun n : ℕ => -(n : Int)
  | '+' :: digits => ((number digits).filter fun n => n < 2 ^ 63).map fun n : ℕ => (n : Int)
  | digits => ((number digits).filter fun n => n < 2 ^ 63).map fun n : ℕ => (n : Int)

/-- The exponent of a numeral: nothing, or `e` and an integer. -/
def isExponent : List Char → Bool
  | [] => true
  | e :: rest =>
    let digits := match rest with
      | '+' :: digits | '-' :: digits => digits
      | digits => digits
    (e == 'e' || e == 'E') && !digits.isEmpty && digits.all Char.isDigit

/-- Digits with at most one point and at least one digit, and an exponent. -/
def isNumber (s : List Char) : Bool :=
  let whole := s.takeWhile Char.isDigit
  match s.dropWhile Char.isDigit with
  | '.' :: rest =>
    let fraction := rest.takeWhile Char.isDigit
    !(whole.isEmpty && fraction.isEmpty) && isExponent (rest.dropWhile Char.isDigit)
  | rest => !whole.isEmpty && isExponent rest

/-- The texts that `f64::from_str` accepts. -/
def isFloatText (s : List Char) : Bool :=
  let unsigned := match s with
    | '+' :: rest | '-' :: rest => rest
    | rest => rest
  let lower := unsigned.map Char.toLower
  lower == "inf".toList || lower == "infinity".toList || lower == "nan".toList || isNumber unsigned

/-! ## Values -/

section Values
variable {F : Type} (fl : Floats F)

def asI64 : JsonNumber → Option Int
  | .int i => if -(2 ^ 63) ≤ i ∧ i < 2 ^ 63 then some i else none
  | .float _ => none

-- never fails: numbers are not kept in arbitrary precision
def asF64 : JsonNumber → F
  | .int i => fl.ofInt i
  | .float bits => fl.ofBits bits

mutual
def jsonToExprValue : Json → ExprValue F
  | .null => .null
  | .bool b => .bool b
  | .num n => match asI64 n with
    | some i => .int i
    | none => .float (asF64 fl n)
  | .str s => .string s
  | .arr items => .list (itemsToExprValues items)
  | .obj fields => .map (fieldsToExprValues fields)
def itemsToExprValues : List Json → List (ExprValue F)
  | [] => []
  | v :: vs => jsonToExprValue v :: itemsToExprValues vs
def fieldsToExprValues : List (String × Json) → List (String × ExprValue F)
  | [] => []
  | (k, v) :: fs => (k, jsonToExprValue v) :: fieldsToExprValues fs
end

def toBool : ExprValue F → Bool
  | .bool b => b
  | .int n => n != 0
  | .float f => fl.nonzero f
  | .string s => !s.toList.isEmpty
  | .list l => !l.isEmpty
  | .map m => !m.isEmpty
  | .json j => match j.asBool, j.asStr with
    | some b, _ => b
    | none, some s => !s.toList.isEmpty
    | none, none => !j.isNull
  | .null => false

def equals : ExprValue F → ExprValue F → Bool
  | .bool a, .bool b => a == b
  | .int a, .int b => a == b
  | .float a, .float b => fl.close a b
  | .string a, .string b => a == b
  | .json (.str s), .string b => s == b
  | .string a, .json (.str s) => a == s
  | .json (.num n), .int b => asI64 n == some b
  | .int a, .json (.num n) => some a == asI64 n
  | .json (.num n), .float b => fl.eq (asF64 fl n) b
  | .float a, .json (.num n) => fl.eq a (asF64 fl n)
  | .json a, .json b => decide (a = b)
  | .null, .null => true
  | _, _ => false

def parseFloat (s : String) : Except ExprError F :=
  if isFloatText s.toList then .ok (fl.ofNumeral s.toList)
  else .error (.typeError "numeric string" ("'" ++ s ++ "' error: " ++ fl.numeralError s))

def toFloat : ExprValue F → Except ExprError F
  | .int i => .ok (fl.ofInt i)
  | .float f => .ok f
  | .string s => parseFloat fl s
  | .json (.num n) => .ok (asF64 fl n)
  | .json (.str s) => parseFloat fl s
  | v => .error (.typeError "number" (fl.debug v))

def compare (a b : ExprValue F) : Except ExprError Int := do
  let va ← toFloat fl a
  let vb ← toFloat fl b
  .ok (if fl.lt va vb then -1 else if fl.lt vb va then 1 else 0)

end Values

/-! ## Operators -/

inductive CompareOp
  | eq
  | ne
  | ge
  | le
  | gt
  | lt
deriving DecidableEq

def CompareOp.symbol : CompareOp → List Char
  | .eq => ['=', '=']
  | .ne => ['!', '=']
  | .ge => ['>', '=']
  | .le => ['<', '=']
  | .gt => ['>']
  | .lt => ['<']

-- the order in which the evaluator looks for them
def CompareOp.ops : List CompareOp := [.eq, .ne, .ge, .le, .gt, .lt]

/-- An operator in the text: its symbol between single spaces. -/
def spaced (symbol : List Char) : List Char := ' ' :: symbol ++ [' ']

def orText : List Char := spaced ['|', '|']

def andText : List Char := spaced ['&', '&']

def findComparison (expr : List Char) : Option (CompareOp × List Char × List Char) :=
  CompareOp.ops.findSome? fun op => (splitOnce (spaced op.symbol) expr).map fun r => (op, r)

section Operators
variable {F : Type} (fl : Floats F)

def CompareOp.apply (op : CompareOp) (left right : ExprValue F) : Except ExprError (ExprValue F) :=
  match op with
  | .eq => .ok (.bool (equals fl left right))
  | .ne => .ok (.bool (!equals fl left right))
  | .gt => (compare fl left right).map fun c => .bool (decide (c > 0))
  | .lt => (compare fl left right).map fun c => .bool (decide (c < 0))
  | .ge => (compare fl left right).map fun c => .bool (decide (c ≥ 0))
  | .le => (compare fl left right).map fun c => .bool (decide (c ≤ 0))

/-! ## Evaluation -/

variable (context : StrMap (ExprValue F))

/-- One field further along a reference. -/
def readField (expr : List Char) (current : ExprValue F) (part : List Char) :
    Except ExprError (ExprValue F) :=
  let missing (tail : String) : Except ExprError (ExprValue F) :=
    .error (.unknownReference (String.ofList expr ++ ": field '" ++ String.ofList part ++ tail))
  match current with
  | .map m => match m.lookup (String.ofList part) with
    | some v => .ok v
    | none => missing "' not found"
  | .json j => match j.get (String.ofList part) with
    | some v => .ok (jsonToExprValue fl v)
    | none => missing "' not found in JSON"
  | _ => .error (.typeError "map or object" (fl.debug current))

/-- The value of a reference: a name of the context, and fields behind dots. -/
def readReference (expr : List Char) : Except ExprError (ExprValue F) :=
  let parts := splitChar '.' expr
  match context.lookup (String.ofList parts.headI) with
  | some current => parts.tail.foldlM (readField fl expr) current
  | none => .error (.unknownReference (String.ofList expr))

def isQuoted (expr : List Char) : Bool :=
  2 ≤ expr.length && ((expr.head? == some '"' && expr.getLast? == some '"') ||
    (expr.head? == some '\'' && expr.getLast? == some '\''))

/-- A text without quotes around it. -/
def evalWord (expr : List Char) : Except ExprError (ExprValue F) :=
  match parseI64 expr with
  | some n => .ok (.int n)
  | none =>
    if isFloatText expr then .ok (.float (fl.ofNumeral expr)) else readReference fl context expr

def evalValue (expr : List Char) : Except ExprError (ExprValue F) :=
  let expr := trimList expr
  if expr = "true".toList then .ok (.bool true)
  else if expr = "false".toList then .ok (.bool false)
  else if expr = "null".toList ∨ expr = "None".toList then .ok .null
  else if isQuoted expr then .ok (.string (String.ofList expr.tail.dropLast))
  else evalWord fl context expr

def isEmptyValue : ExprValue F → Bool
  | .string s => s.toList.isEmpty
  | .list l => l.isEmpty
  | .map m => m.isEmpty
  | .json (.arr a) => a.isEmpty
  | .json (.obj o) => o.isEmpty
  | .json (.str s) => s.toList.isEmpty
  | .null => true
  | _ => false

def isNullValue : ExprValue F → Bool
  | .null => true
  | _ => false

/-- The text before a suffix. -/
def beforeSuffix (suffix expr : List Char) : Option (List Char) :=
  if suffix.isSuffixOf expr then some (expr.take (expr.length - suffix.length)) else none

def existsText : List Char := " exists".toList

def isEmptyText : List Char := " is empty".toList

def tryKeywordOp (expr : List Char) : Except ExprError (Option (ExprValue F)) :=
  match beforeSuffix existsText expr with
  | some reference => match evalValue fl context (trimList reference) with
    | .ok v => .ok (some (.bool (!isNullValue v)))
    | .error _ => .ok (some (.bool false))
  | none => match beforeSuffix isEmptyText expr with
    | some reference =>
      (evalValue fl context (trimList reference)).map fun v => some (.bool (isEmptyValue v))
    | none => .ok none

end Operators

/-! The two sides of an operator are shorter than the text. -/

theorem length_trimList_le (s : List Char) : (trimList s).length ≤ s.length := by
  obtain ⟨a, b, hsplit, -, -⟩ := trimList_split s
  have hlen := congrArg List.length hsplit
  simp only [List.length_append] at hlen
  omega

theorem spaced_ne_nil (symbol : List Char) : spaced symbol ≠ [] := List.cons_ne_nil _ _

theorem length_of_split {symbol s a b : List Char} (h : s = a ++ spaced symbol ++ b) :
    a.length < s.length ∧ b.length < s.length := by
  rw [h]
  simp only [spaced, List.length_append, List.length_cons, List.length_nil]
  omega

theorem findComparison_split {expr left right : List Char} {op : CompareOp}
    (h : findComparison expr = some (op, left, right)) :
    expr = left ++ spaced op.symbol ++ right := by
  obtain ⟨op', -, hfound⟩ := List.exists_of_findSome?_eq_some h
  obtain ⟨r, hr, heq⟩ := Option.map_eq_some_iff.mp hfound
  cases heq
  exact ((splitOnce_eq_some (spaced_ne_nil _)).mp hr).1

section Evaluate
variable {F : Type} (fl : Floats F) (context : StrMap (ExprValue F))

set_option linter.unusedVariables false in
-- the names of the matches are those of the termination proof
def evalExpr (text : List Char) : Except ExprError (ExprValue F) :=
  match hor : rsplitOnce orText (trimList text) with
  | some (l, r) => do
    let left ← evalExpr l
    let right ← evalExpr r
    .ok (.bool (toBool fl left || toBool fl right))
  | none => match hand : rsplitOnce andText (trimList text) with
    | some (l, r) => do
      let left ← evalExpr l
      let right ← evalExpr r
      .ok (.bool (toBool fl left && toBool fl right))
    | none => match hcmp : findComparison (trimList text) with
      | some (op, l, r) => do
        let left ← evalExpr (trimList l)
        let right ← evalExpr (trimList r)
        op.apply fl left right
      | none => match hnot : trimList text with
        | '!' :: stripped => do
          let val ← evalExpr stripped
          .ok (.bool (!toBool fl val))
        | expr => match tryKeywordOp fl context expr with
          | .error e => .error e
          | .ok (some res) => .ok res
          | .ok none => evalValue fl context expr
termination_by text.length
decreasing_by
  all_goals have htrim := length_trimList_le text
  · have hsplit := ((rsplitOnce_eq_some (spaced_ne_nil _)).mp hor).1
    have hlen := length_of_split hsplit
    omega
  · have hsplit := ((rsplitOnce_eq_some (spaced_ne_nil _)).mp hor).1
    have hlen := length_of_split hsplit
    omega
  · have hsplit := ((rsplitOnce_eq_some (spaced_ne_nil _)).mp hand).1
    have hlen := length_of_split hsplit
    omega
  · have hsplit := ((rsplitOnce_eq_some (spaced_ne_nil _)).mp hand).1
    have hlen := length_of_split hsplit
    omega
  · have hlen := length_of_split (findComparison_split hcmp)
    have hl := length_trimList_le l
    omega
  · have hlen := length_of_split (findComparison_split hcmp)
    have hr := length_trimList_le r
    omega
  · have hlen : (trimList text).length = stripped.length + 1 := congrArg List.length hnot
    omega

section Equations
variable {text : List Char}

theorem evalExpr_or {l r : List Char} (hor : rsplitOnce orText (trimList text) = some (l, r)) :
    evalExpr fl context text = (do
      let left ← evalExpr fl context l
      let right ← evalExpr fl context r
      .ok (.bool (toBool fl left || toBool fl right))) := by
  rw [evalExpr]
  split
  · rename_i hor'
    rw [hor] at hor'
    cases hor'
    rfl
  · rename_i hnone
    rw [hor] at hnone
    cases hnone

theorem evalExpr_and {l r : List Char} (hor : ¬orText <:+: trimList text)
    (hand : rsplitOnce andText (trimList text) = some (l, r)) :
    evalExpr fl context text = (do
      let left ← evalExpr fl context l
      let right ← evalExpr fl context r
      .ok (.bool (toBool fl left && toBool fl right))) := by
  rw [evalExpr]
  split
  · rename_i hsome
    rw [rsplitOnce_eq_none.mpr hor] at hsome
    cases hsome
  · split
    · rename_i hand'
      rw [hand] at hand'
      cases hand'
      rfl
    · rename_i hnone
      rw [hand] at hnone
      cases hnone

/-- What is left when no logical operator stands in the text. -/
def evalComparison (expr : List Char) : Except ExprError (ExprValue F) :=
  match findComparison expr with
  | some (op, l, r) => do
    let left ← evalExpr fl context (trimList l)
    let right ← evalExpr fl context (trimList r)
    op.apply fl left right
  | none => match expr with
    | '!' :: stripped => do
      let val ← evalExpr fl context stripped
      .ok (.bool (!toBool fl val))
    | expr => match tryKeywordOp fl context expr with
      | .error e => .error e
      | .ok (some res) => .ok res
      | .ok none => evalValue fl context expr

theorem evalExpr_comparison (hor : ¬orText <:+: trimList text) (hand : ¬andText <:+: trimList text) :
    evalExpr fl context text = evalComparison fl context (trimList text) := by
  rw [evalExpr]
  split
  · rename_i hsome
    rw [rsplitOnce_eq_none.mpr hor] at hsome
    cases hsome
  · split
    · rename_i hsome
      rw [rsplitOnce_eq_none.mpr hand] at hsome
      cases hsome
    · unfold evalComparison
      split
      · rename_i hcmp
        rw [hcmp]
      · rename_i hcmp
        rw [hcmp]
        dsimp only
        generalize trimList text = expr
        split
        · rfl
        · rename_i hne
          symm
          split
          · exact absurd rfl (hne _)
          · rfl

end Equations

/-- `ExprEvaluator::evaluate`. -/
def evaluate (expr : String) : Except ExprError (ExprValue F) :=
  let expr := trimList expr.toList
  if expr.isEmpty then .ok (.bool true) else evalExpr fl context expr

def evaluateAsBool (expr : String) : Except ExprError Bool :=
  (evaluate fl context expr).map (toBool fl)

end Evaluate

/-- The value of `f64` next to an integer; between two, the even one. -/
def nearestFloat (i : Int) : Int :=
  let n := i.natAbs
  let unit := 2 ^ (Nat.log2 n - 52)
  let up := unit < 2 * (n % unit) || (2 * (n % unit) == unit && n / unit % 2 == 1)
  i.sign * (((n / unit + if up then 1 else 0) * unit : ℕ) : Int)

/-- The integers among the values of `f64`. -/
def integerFloats : Floats Int where
  ofInt := nearestFloat
  ofBits _ := 0
  ofNumeral s := nearestFloat ((parseI64 s).getD 0)
  nonzero f := f != 0
  close a b := a == b
  eq a b := a == b
  lt a b := decide (a < b)
  debug _ := ""
  numeralError _ := "invalid float literal"

/-- `to_expr_context` of the executor. -/
def toExprContext {F : Type} (fl : Floats F) (outputs : StrMap Json) : StrMap (ExprValue F) where
  entries := outputs.entries.map fun e => ⟨e.1, jsonToExprValue fl e.2⟩
  nodupKeys := by
    have hkeys := outputs.nodupKeys
    rw [List.NodupKeys, List.keys] at hkeys ⊢
    rw [List.map_map]
    exact hkeys

end Konf.Condition
