import Konf.Substrate.Grammar

/-! # Equality in conditions

Node outputs reach a condition as `ExprValue`s, and `==` goes through a table of pairs of those. The
table has no line for two lists or two maps, and integers from `2 ^ 63` on are compared as floats. -/

namespace Konf.Condition
open Konf.Text
set_option autoImplicit false

section Table
variable {F : Type} {fl : Floats F} {v w : Json}

/-- No float, and an integer as `serde_json` holds it. What stands inside an array or an object does
not matter. -/
def FloatFree : Json → Prop
  | .num (.int i) => -(2 ^ 63) ≤ i ∧ i < 2 ^ 64
  | .num (.float _) => False
  | _ => True

/-- From `2 ^ 63` on the integers of `f64` are at least 2048 apart: they are close when they are
the same, and that they are when they are nearest to the same. -/
def IntegersRound (fl : Floats F) : Prop :=
  ∀ i j : Int, 2 ^ 63 ≤ i ∧ i < 2 ^ 64 → 2 ^ 63 ≤ j ∧ j < 2 ^ 64 →
    (fl.close (fl.ofInt i) (fl.ofInt j) = true ↔ nearestFloat i = nearestFloat j)

def IsContainer : Json → Prop
  | .arr _ | .obj _ => True
  | _ => False

/-- Two integers that are one as floats. -/
def SameFloat (v w : Json) : Prop :=
  ∃ i j : Int, v = .num (.int i) ∧ w = .num (.int j) ∧ 2 ^ 63 ≤ i ∧ 2 ^ 63 ≤ j ∧
    nearestFloat i = nearestFloat j

theorem jsonToExprValue_int {i : Int} (h : -(2 ^ 63) ≤ i) :
    jsonToExprValue fl (.num (.int i)) = if i < 2 ^ 63 then .int i else .float (fl.ofInt i) := by
  rw [jsonToExprValue, asI64]
  by_cases hi : i < 2 ^ 63
  · rw [if_pos ⟨h, hi⟩, if_pos hi]
  · rw [if_neg (fun hand => hi hand.2), if_neg hi]
    rfl

theorem equals_int (hfl : IntegersRound fl) {i j : Int} (hi : -(2 ^ 63) ≤ i ∧ i < 2 ^ 64)
    (hj : -(2 ^ 63) ≤ j ∧ j < 2 ^ 64) :
    equals fl (jsonToExprValue fl (.num (.int i))) (jsonToExprValue fl (.num (.int j))) = true ↔
      i = j ∨ (2 ^ 63 ≤ i ∧ 2 ^ 63 ≤ j ∧ nearestFloat i = nearestFloat j) := by
  rw [jsonToExprValue_int hi.1, jsonToExprValue_int hj.1]
  split_ifs with hli hlj hlj
  · simp only [equals, beq_iff_eq]
    omega
  · simp only [equals, Bool.false_eq_true, false_iff]
    omega
  · simp only [equals, Bool.false_eq_true, false_iff]
    omega
  · have hi' : 2 ^ 63 ≤ i := Int.not_lt.mp hli
    have hj' : 2 ^ 63 ≤ j := Int.not_lt.mp hlj
    rw [equals, hfl i j ⟨hi', hi.2⟩ ⟨hj', hj.2⟩]
    constructor
    · intro h
      exact .inr ⟨hi', hj', h⟩
    · rintro (rfl | ⟨-, -, h⟩)
      · rfl
      · exact h

theorem jsonToExprValue_num (fl : Floats F) (n : JsonNumber) :
    (∃ i, jsonToExprValue fl (.num n) = .int i) ∨ ∃ f, jsonToExprValue fl (.num n) = .float f := by
  rw [jsonToExprValue]
  cases asI64 n with
  | some i => exact .inl ⟨i, rfl⟩
  | none => exact .inr ⟨_, rfl⟩

/-- Values of different kinds are different, and so are two containers. -/
theorem equals_scalar (hnum : ¬((∃ n, v = .num n) ∧ ∃ m, w = .num m)) :
    equals fl (jsonToExprValue fl v) (jsonToExprValue fl w) = true ↔ v = w ∧ ¬IsContainer v := by
  cases v with
  | num n =>
    have hw : ∀ m, w ≠ .num m := fun m h => hnum ⟨⟨n, rfl⟩, ⟨m, h⟩⟩
    obtain ⟨i, hn⟩ | ⟨f, hn⟩ := jsonToExprValue_num fl n
    all_goals
      rw [hn]
      cases w <;> simp_all [jsonToExprValue, equals]
  | null | bool b | str s | arr items | obj fields =>
    cases w with
    | num m =>
      obtain ⟨j, hm⟩ | ⟨f, hm⟩ := jsonToExprValue_num fl m
      all_goals
        rw [hm]
        simp [jsonToExprValue, equals]
    | null | bool b | str s | arr items | obj fields => simp [jsonToExprValue, equals, IsContainer]

theorem equals_json (hfl : IntegersRound fl) (hv : FloatFree v) (hw : FloatFree w) :
    equals fl (jsonToExprValue fl v) (jsonToExprValue fl w) = true ↔
      (v = w ∧ ¬IsContainer v) ∨ SameFloat v w := by
  by_cases hnum : (∃ n, v = .num n) ∧ ∃ m, w = .num m
  · obtain ⟨⟨n, rfl⟩, ⟨m, rfl⟩⟩ := hnum
    cases n with
    | float bits => exact hv.elim
    | int i =>
      cases m with
      | float bits => exact hw.elim
      | int j =>
        rw [equals_int hfl hv hw]
        simp [SameFloat, IsContainer]
  · have hdifferent : ¬SameFloat v w := by
      rintro ⟨i, j, rfl, rfl, -⟩
      exact hnum ⟨⟨_, rfl⟩, ⟨_, rfl⟩⟩
    rw [equals_scalar hnum, or_iff_left hdifferent]

end Table

/-! ## Two outputs in a condition -/

section Outputs
variable {F : Type} (fl : Floats F) (outputs : StrMap Json)

theorem toExprContext_lookup (name : String) :
    (toExprContext fl outputs).lookup name = (outputs.lookup name).map (jsonToExprValue fl) := by
  change List.dlookup name (outputs.entries.map _) = (List.dlookup name outputs.entries).map _
  induction outputs.entries with
  | nil => rfl
  | cons e entries ih =>
    obtain ⟨key, v⟩ := e
    rw [List.map_cons]
    by_cases hkey : name = key
    · subst hkey
      rw [List.dlookup_cons_eq, List.dlookup_cons_eq, Option.map_some]
    · rw [List.dlookup_cons_ne _ _ hkey, List.dlookup_cons_ne _ _ hkey, ih]

/-- The name of a node, as a condition reads it. -/
structure Output (outputs : StrMap Json) where
  name : Reference
  noField : '.' ∉ name.text
  value : Json
  recorded : outputs.lookup (String.ofList name.text) = some value

variable {outputs}

theorem Output.read (a : Output outputs) :
    readReference fl (toExprContext fl outputs) a.name.text = .ok (jsonToExprValue fl a.value) := by
  rw [readReference, splitChar_of_notMem a.noField, List.headI_cons, toExprContext_lookup, a.recorded]
  rfl

/-- The condition that compares two outputs. -/
def compareText (op : CompareOp) (a b : Output outputs) : String :=
  String.ofList (a.name.text ++ spaced op.symbol ++ b.name.text)

theorem evaluate_compareText (op : CompareOp) (a b : Output outputs) :
    evaluate fl (toExprContext fl outputs) (compareText op a b) =
      op.apply fl (jsonToExprValue fl a.value) (jsonToExprValue fl b.value) := by
  let tree : Disjunction :=
    .conjunction (.comparison (.compare op (.atom (.ref a.name)) (.atom (.ref b.name))))
  have hlegible : Legible tree.strings := fun s hs => nomatch hs
  have htext : compareText op a b = String.ofList tree.print := rfl
  have hvalue : tree.value fl (toExprContext fl outputs) = (do
      let l ← readReference fl (toExprContext fl outputs) a.name.text
      let r ← readReference fl (toExprContext fl outputs) b.name.text
      op.apply fl l r) := rfl
  rw [htext, evaluate_print, Disjunction.evalExpr_print fl _ hlegible, hvalue, a.read, b.read]
  rfl

theorem verdicts_iff {x : Bool} {P : Prop} [Decidable P] :
    ((.ok (.bool x) : Except ExprError (ExprValue F)) = .ok (.bool (decide P)) ∧
      (.ok (.bool (!x)) : Except ExprError (ExprValue F)) = .ok (.bool (!decide P))) ↔
    (x = true ↔ P) := by
  by_cases hP : P <;> cases x <;> simp [hP]

/-- `==` and `!=` tell whether two outputs are the same JSON value, unless they are the same
container or different integers with one float. -/
theorem output_equality_iff (hfl : IntegersRound fl) (a b : Output outputs)
    (ha : FloatFree a.value) (hb : FloatFree b.value) :
    (evaluate fl (toExprContext fl outputs) (compareText .eq a b) =
        .ok (.bool (decide (a.value = b.value))) ∧
      evaluate fl (toExprContext fl outputs) (compareText .ne a b) =
        .ok (.bool (!decide (a.value = b.value)))) ↔
    ¬(a.value = b.value ∧ IsContainer a.value) ∧ ¬(a.value ≠ b.value ∧ SameFloat a.value b.value) := by
  have hnumber : SameFloat a.value b.value → ¬IsContainer a.value := by
    rintro ⟨i, j, hi, -⟩
    rw [hi]
    exact id
  rw [evaluate_compareText, evaluate_compareText, CompareOp.apply, CompareOp.apply, verdicts_iff,
    equals_json hfl ha hb]
  tauto

end Outputs

/-! ### Outputs of one run -/

theorem integerFloats_round : IntegersRound integerFloats := by
  intro i j _ _
  exact beq_iff_eq

def nameA : Reference where
  text := ['a']
  nonempty := by decide
  chars := forall_mem_of_all (by decide)
  notConstant := by decide
  notInt := by decide
  notFloat := by decide

def outputsOf (v : Json) : StrMap Json := StrMap.ofList [("a", v)] (by simp)

def outputA (v : Json) : Output (outputsOf v) where
  name := nameA
  noField := by decide
  value := v
  recorded := rfl

theorem text_equals_itself :
    evaluate integerFloats (toExprContext integerFloats (outputsOf (.str "done"))) "a == a" =
      .ok (.bool true) := by
  have htext : compareText .eq (outputA (.str "done")) (outputA (.str "done")) = "a == a" := by decide
  have hiff := output_equality_iff integerFloats integerFloats_round (outputA (.str "done"))
    (outputA (.str "done")) trivial trivial
  have hboth := hiff.mpr ⟨fun h => h.2, fun h => h.1 rfl⟩
  rw [htext] at hboth
  exact hboth.1

theorem list_differs_from_itself :
    evaluate integerFloats (toExprContext integerFloats (outputsOf (.arr [.num (.int 1)]))) "a == a" =
      .ok (.bool false) := by
  have htext : compareText .eq (outputA (.arr [.num (.int 1)])) (outputA (.arr [.num (.int 1)])) =
    "a == a" := by decide
  rw [← htext, evaluate_compareText]
  rfl

end Konf.Condition
