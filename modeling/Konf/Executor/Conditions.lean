import Mathlib.Data.List.Infix
import Konf.Executor.Machine
import Konf.Substrate.Literals

/-! # One text as `when` and as `until`

A branch takes the braces off its condition before it evaluates it, `repeat` does not. Without braces
the two give the same verdict. With them the last operand of an `until` keeps the closing braces, and
the evaluator reads it as a name. -/

namespace Konf.Executor
open Konf.Substrate Konf.Text Konf.Condition
set_option autoImplicit false

/-! ## Verdicts -/

/-- The condition evaluator of the executor, over the outputs of a run. -/
def evaluateCondition {F : Type} (fl : Floats F) (outputs : Outputs) (condition : String) :
    Except String Bool :=
  (evaluateAsBool fl (toExprContext fl outputs) condition).mapError ExprError.display

/-- What a condition decides: a truth value, or nothing when it fails. -/
def whenVerdict {F : Type} (fl : Floats F) (outputs : Outputs) (condition : String) :
    Option Bool :=
  (evaluateCondition fl outputs (cleanCondition condition)).toOption

def untilVerdict {F : Type} (fl : Floats F) (outputs : Outputs) (condition : String) :
    Option Bool :=
  (evaluateCondition fl outputs condition).toOption

section Executor
variable {F : Type} {fl : Floats F} {env : ExecutorEnv} {outputs : Outputs}

/-- The walk over the edges goes by the verdict of each condition. -/
theorem walkEdges_whenVerdict (henv : env.evaluateAsBool = evaluateCondition fl) {step : Step}
    {edge : Edge} {rest : List Edge} {targets : List EdgeTarget} {condition : String}
    (hcond : edge.condition = some condition) :
    (whenVerdict fl outputs condition = some true →
      walkEdges env step outputs (edge :: rest) targets = .ok (targets ++ [edge.target])) ∧
    (whenVerdict fl outputs condition = some false →
      walkEdges env step outputs (edge :: rest) targets = walkEdges env step outputs rest targets) ∧
    (whenVerdict fl outputs condition = none →
      (walkEdges env step outputs (edge :: rest) targets).isOk = false) := by
  unfold whenVerdict
  cases hv : evaluateCondition fl outputs (cleanCondition condition) with
  | error e =>
    simp [walkEdges, hcond, henv, hv, Except.toOption, Except.isOk, Except.toBool]
  | ok v =>
    cases v with
    | true => simp [walkEdges, hcond, henv, hv, Except.toOption]
    | false => simp [walkEdges, hcond, henv, hv, Except.toOption]

/-- The loop of a step goes by the verdict of its `until`. -/
theorem repeatOrLeave_untilVerdict (henv : env.evaluateAsBool = evaluateCondition fl) {t : Task}
    {r : RepeatConfig} (hrepeat : t.current.repeat_ = some r) (val : Json) :
    (untilVerdict fl outputs r.until_ = some true →
      t.repeatOrLeave env val outputs = { t with pc := .chooseNext val }) ∧
    (untilVerdict fl outputs r.until_ = some false →
      t.repeatOrLeave env val outputs =
        { t with
          iteration := t.iteration + 1
          pc := if t.iteration + 1 < r.max then .loopTop else .chooseNext val }) ∧
    (untilVerdict fl outputs r.until_ = none →
      ∃ message, t.repeatOrLeave env val outputs =
        t.close [] (.error (env.nodeFailed t.current.id message))) := by
  unfold untilVerdict
  cases hv : evaluateCondition fl outputs r.until_ with
  | error e =>
    simp [Task.repeatOrLeave, hrepeat, henv, hv, Except.toOption]
    exact ⟨_, rfl⟩
  | ok v =>
    cases v with
    | true => simp [Task.repeatOrLeave, hrepeat, henv, hv, Except.toOption]
    | false => simp [Task.repeatOrLeave, hrepeat, henv, hv, Except.toOption]

end Executor

/-! ## Conditions without braces -/

/-- The text is written in surrounding braces, white space apart. -/
def Braced (condition : String) : Prop :=
  ∃ inner, trim condition = openTag ++ inner ++ closeTag

theorem trimList_trimList (s : List Char) : trimList (trimList s) = trimList s := by
  apply trimList_eq_self
  · intro c hc
    have hstart : trimList s <+: s.dropWhile isWhitespace := by
      have hdrop := List.dropWhile_suffix isWhitespace (l := (s.dropWhile isWhitespace).reverse)
      simpa [trimList] using List.reverse_prefix.mpr hdrop
    obtain ⟨rest, hrest⟩ := hstart
    have hhead : (s.dropWhile isWhitespace).head? = some c := by
      rw [← hrest, List.head?_append, hc]
      rfl
    have hnot := List.head?_dropWhile_not isWhitespace s
    rw [hhead] at hnot
    exact hnot
  · intro c hc
    rw [trimList, List.getLast?_reverse] at hc
    have hnot := List.head?_dropWhile_not isWhitespace (s.dropWhile isWhitespace).reverse
    rw [hc] at hnot
    exact hnot

theorem evaluate_trim {F : Type} (fl : Floats F) (context : StrMap (ExprValue F))
    (condition : String) : evaluate fl context (trim condition) = evaluate fl context condition := by
  unfold evaluate trim
  rw [String.toList_ofList, trimList_trimList]

theorem cleanCondition_of_not_braced {condition : String} (h : ¬Braced condition) :
    cleanCondition condition = trim condition := by
  have hnone : ((stripPrefix (trim condition) openTag).bind fun s => stripSuffix s closeTag) =
      none := by
    rw [Option.bind_eq_none_iff]
    intro rest hrest
    rw [stripPrefix_eq_some] at hrest
    rw [stripSuffix_eq_none]
    intro inner hinner
    apply h
    exact ⟨inner, by rw [hrest, hinner, String.append_assoc]⟩
  rw [cleanCondition, hnone]
  rfl

theorem whenVerdict_of_not_braced {F : Type} (fl : Floats F) (outputs : Outputs)
    {condition : String} (h : ¬Braced condition) :
    whenVerdict fl outputs condition = untilVerdict fl outputs condition := by
  unfold whenVerdict untilVerdict evaluateCondition evaluateAsBool
  rw [cleanCondition_of_not_braced h, evaluate_trim]

/-! ## Conditions in braces -/

section Closing
variable {s l r : List Char}

theorem closing_of_cons {c : Char} (hc : c ∉ closeTag.toList) (h : closeTag.toList <:+ c :: s) :
    closeTag.toList <:+ s := by
  obtain heq | hs := List.suffix_cons_iff.mp h
  · rw [heq] at hc
    exact absurd (List.mem_cons_self ..) hc
  · exact hs

/-- The part behind an operator keeps the closing braces. -/
theorem closing_of_split {w : List Char} (h : closeTag.toList <:+ l ++ spaced w ++ r) :
    closeTag.toList <:+ r := by
  have hshape : l ++ spaced w ++ r = (l ++ ' ' :: w) ++ ' ' :: r := by simp [spaced]
  have hspace : ' ' ∉ closeTag.toList := by decide
  rw [hshape] at h
  obtain hs | hs := List.suffix_or_suffix_of_suffix h (List.suffix_append (l ++ ' ' :: w) (' ' :: r))
  · exact closing_of_cons hspace hs
  · exact absurd (hs.subset (List.mem_cons_self ..)) hspace

theorem trimList_closing (h : closeTag.toList <:+ s) :
    closeTag.toList <:+ trimList s ∧ trimList s <:+ s := by
  obtain ⟨start, rfl⟩ := h
  have hdrop : (start ++ closeTag.toList).dropWhile isWhitespace =
      start.dropWhile isWhitespace ++ closeTag.toList := by
    rw [List.dropWhile_append]
    split_ifs with hempty
    · rw [List.isEmpty_iff.mp hempty]
      decide
    · rfl
  have htrim : trimList (start ++ closeTag.toList) =
      start.dropWhile isWhitespace ++ closeTag.toList := by
    have hkeep : (closeTag.toList.reverse ++ (start.dropWhile isWhitespace).reverse).dropWhile
        isWhitespace = closeTag.toList.reverse ++ (start.dropWhile isWhitespace).reverse := rfl
    rw [trimList, hdrop, List.reverse_append, hkeep, ← List.reverse_append, List.reverse_reverse]
  rw [htrim]
  refine ⟨List.suffix_append _ _, ?_⟩
  have hstart := List.dropWhile_suffix isWhitespace (l := start)
  obtain ⟨front, hfront⟩ := hstart
  exact ⟨front, by rw [← List.append_assoc, hfront]⟩

theorem closing_ne {text : List Char} (h : closeTag.toList <:+ s)
    (htext : ¬closeTag.toList <:+ text) : s ≠ text := by
  intro heq
  exact htext (heq ▸ h)

theorem closing_last (h : closeTag.toList <:+ s) : s.getLast? = some '\x7d' := by
  obtain ⟨start, rfl⟩ := h
  rw [List.getLast?_append_of_ne_nil _ (by decide)]
  decide

end Closing

/-- A piece of the text, closing braces included, that the outputs of the run have a value for. -/
def NamesClosing {F : Type} (fl : Floats F) (outputs : Outputs) (condition : String) : Prop :=
  ∃ piece, piece <:+ (trim condition).toList ∧ closeTag.toList <:+ piece ∧
    ∃ v, readReference fl (toExprContext fl outputs) piece = .ok v

section Fails
variable {F : Type} {fl : Floats F} {outputs : Outputs} {condition : String}

theorem evalValue_closing (hnames : ¬NamesClosing fl outputs condition) {s : List Char}
    (hclosing : closeTag.toList <:+ s) (hpiece : s <:+ (trim condition).toList) :
    ∃ e, evalValue fl (toExprContext fl outputs) s = .error e := by
  obtain ⟨hs, hpart⟩ := trimList_closing hclosing
  have hlast := closing_last hs
  have hbrace : '\x7d' ∈ trimList s := List.mem_of_getLast? hlast
  have hforeign : foreignToNumerals '\x7d' = true := by decide
  have hquoted : isQuoted (trimList s) = false := by
    simp [isQuoted, hlast]
  have hunknown : ∃ e, readReference fl (toExprContext fl outputs) (trimList s) = .error e := by
    cases hread : readReference fl (toExprContext fl outputs) (trimList s) with
    | error e => exact ⟨e, rfl⟩
    | ok v => exact absurd ⟨_, hpart.trans hpiece, hs, v, hread⟩ hnames
  obtain ⟨e, he⟩ := hunknown
  refine ⟨e, ?_⟩
  rw [evalValue, if_neg (closing_ne hs (by decide)), if_neg (closing_ne hs (by decide)),
    if_neg (not_or.mpr ⟨closing_ne hs (by decide), closing_ne hs (by decide)⟩), hquoted]
  rw [evalWord, parseI64_foreign hforeign hbrace, isFloatText_foreign hforeign hbrace]
  exact he

/-- However the text is cut, the last part ends with the closing braces and is read as a name. -/
theorem evalExpr_closing (hnames : ¬NamesClosing fl outputs condition) {s : List Char}
    (hclosing : closeTag.toList <:+ s) (hpiece : s <:+ (trim condition).toList) :
    ∃ e, evalExpr fl (toExprContext fl outputs) s = .error e := by
  refine evalExpr_error
    (P := fun s => closeTag.toList <:+ s ∧ s <:+ (trim condition).toList) ?_ ?_ ?_ ?_
    ⟨hclosing, hpiece⟩
  · intro s hs
    obtain ⟨hclosed, hpart⟩ := trimList_closing hs.1
    exact ⟨hclosed, hpart.trans hs.2⟩
  · intro w _ l r hs
    exact .inr ⟨closing_of_split hs.1, (List.suffix_append _ _).trans hs.2⟩
  · intro s hs
    exact ⟨closing_of_cons (by decide) hs.1, (List.suffix_cons _ _).trans hs.2⟩
  · intro s hs _
    refine ⟨tryKeywordOp_none _ _ ?_ ?_, evalValue_closing hnames hs.1 hs.2⟩
    · refine beforeSuffix_eq_none ?_ (by decide)
      rw [closing_last hs.1]
      decide
    · refine beforeSuffix_eq_none ?_ (by decide)
      rw [closing_last hs.1]
      decide

theorem untilVerdict_of_braced (hbraced : Braced condition)
    (hnames : ¬NamesClosing fl outputs condition) : untilVerdict fl outputs condition = none := by
  obtain ⟨inner, hinner⟩ := hbraced
  have hclosing : closeTag.toList <:+ (trim condition).toList := by
    rw [hinner, String.toList_append]
    exact List.suffix_append _ _
  obtain ⟨e, he⟩ := evalExpr_closing hnames hclosing (List.suffix_refl _)
  have htrim : trimList condition.toList = (trim condition).toList := by
    rw [trim, String.toList_ofList]
  have hne : ((trim condition).toList).isEmpty = false := by
    rw [List.isEmpty_eq_false_iff]
    intro hnil
    rw [hnil] at hclosing
    exact absurd (List.suffix_nil.mp hclosing) (by decide)
  have hfails : evaluate fl (toExprContext fl outputs) condition = .error e := by
    rw [evaluate, htrim, hne]
    exact he
  unfold untilVerdict evaluateCondition evaluateAsBool
  rw [hfails]
  rfl

end Fails

/-- A condition without surrounding braces has one verdict. In braces it fails as `until` unless the
outputs have a name that ends with the closing braces, so that there is one verdict only when it fails
as `when` too. -/
theorem when_until_agree {F : Type} (fl : Floats F) (outputs : Outputs) (condition : String) :
    (¬Braced condition → whenVerdict fl outputs condition = untilVerdict fl outputs condition) ∧
    (¬NamesClosing fl outputs condition →
      (whenVerdict fl outputs condition = untilVerdict fl outputs condition ↔
        (Braced condition → whenVerdict fl outputs condition = none))) := by
  refine ⟨whenVerdict_of_not_braced fl outputs, ?_⟩
  intro hnames
  constructor
  · intro hsame hbraced
    rw [hsame]
    exact untilVerdict_of_braced hbraced hnames
  · intro hfails
    by_cases hbraced : Braced condition
    · rw [hfails hbraced, untilVerdict_of_braced hbraced hnames]
    · exact whenVerdict_of_not_braced fl outputs hbraced

/-- The outputs of a run after its step `done` has returned `true`. -/
def doneOutputs : Outputs := AList.singleton "done" (.bool true)

/-- The condition of the documentation ends a branch and fails a loop. -/
theorem braced_until_fails :
    whenVerdict integerFloats doneOutputs "\x7b\x7bdone\x7d\x7d" = some true ∧
    untilVerdict integerFloats doneOutputs "\x7b\x7bdone\x7d\x7d" = none := by
  constructor
  · have hclean : cleanCondition "\x7b\x7bdone\x7d\x7d" = "done" := by decide +kernel
    have hvalue : evaluate integerFloats (toExprContext integerFloats doneOutputs) "done" =
        evalComparison integerFloats (toExprContext integerFloats doneOutputs) "done".toList := by
      have htrim : trimList "done".toList = "done".toList := by decide +kernel
      rw [evaluate, htrim]
      exact evalExpr_comparison _ _ (by decide +kernel) (by decide +kernel)
    unfold whenVerdict evaluateCondition evaluateAsBool
    rw [hclean, hvalue]
    rfl
  · refine untilVerdict_of_braced ⟨"done", by decide +kernel⟩ ?_
    intro hnames
    obtain ⟨piece, hpiece, hclosing, v, hread⟩ := hnames
    have hnone : ∀ piece ∈ (trim "\x7b\x7bdone\x7d\x7d").toList.tails,
        closeTag.toList <:+ piece →
          (readReference integerFloats (toExprContext integerFloats doneOutputs) piece).isOk =
            false := by decide +kernel
    have hfails := hnone piece ((List.mem_tails _ _).mpr hpiece) hclosing
    rw [hread] at hfails
    cases hfails

end Konf.Executor
