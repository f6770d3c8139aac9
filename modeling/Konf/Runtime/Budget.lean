import Mathlib.Data.List.AList
import Konf.Substrate.Workflow

/-! # Budget cells

Model of `konf-runtime/src/budget.rs`. The operations hold one lock, so concurrent callers are a sequence
of operations. A subtraction that overflows panics in a build with overflow checks, and leaves the lock
poisoned, so that every later operation panics too; in any other build it wraps around. -/

namespace Konf.Runtime
open Konf.Substrate
set_option autoImplicit false

/-! ## The table -/

inductive BudgetError
  | notFound
  | alreadyExists
  | insufficient (remaining requested : Int64)
deriving DecidableEq

def BudgetError.display : BudgetError → String
  | .notFound => "no budget cell found for trace"
  | .alreadyExists => "budget cell already exists for trace"
  | .insufficient remaining requested => "insufficient budget: " ++ toString remaining.toInt ++
      " remaining, " ++ toString requested.toInt ++ " requested"

structure BudgetTable where
  cells : AList (fun _ : Uuid => Int64)
  poisoned : Bool

/-- The machine's difference is not that of the integers. -/
def SubOverflows (a b : Int64) : Prop := (a - b).toInt ≠ a.toInt - b.toInt

instance (a b : Int64) : Decidable (SubOverflows a b) := by
  unfold SubOverflows
  infer_instance

namespace BudgetTable

def new : BudgetTable := ⟨∅, false⟩

def mint (t : BudgetTable) (traceId : Uuid) (amount : Int64) : Except BudgetError Unit × BudgetTable :=
  match t.cells.lookup traceId with
  | some _ => (.error .alreadyExists, t)
  | none => (.ok (), { t with cells := t.cells.insert traceId amount })

/-- No reply is a panic. -/
def decrement (overflowChecks : Bool) (t : BudgetTable) (traceId : Uuid) (amount : Int64) :
    Option (Except BudgetError Int64) × BudgetTable :=
  match t.cells.lookup traceId with
  | none => (some (.error .notFound), t)
  | some current =>
    if current < amount then (some (.error (.insufficient current amount)), t)
    else if overflowChecks = true ∧ SubOverflows current amount then (none, { t with poisoned := true })
    else (some (.ok (current - amount)), { t with cells := t.cells.insert traceId (current - amount) })

def remaining (t : BudgetTable) (traceId : Uuid) : Option Int64 := t.cells.lookup traceId

def remove (t : BudgetTable) (traceId : Uuid) : Option Int64 × BudgetTable :=
  (t.cells.lookup traceId, { t with cells := t.cells.erase traceId })

end BudgetTable

inductive BudgetOp
  | mint (traceId : Uuid) (amount : Int64)
  | decrement (traceId : Uuid) (amount : Int64)
  | remaining (traceId : Uuid)
  | remove (traceId : Uuid)
deriving DecidableEq

inductive BudgetReply
  | minted (result : Except BudgetError Unit)
  | decremented (result : Except BudgetError Int64)
  | amount (n : Option Int64)

def BudgetReply.isErr : BudgetReply → Bool
  | .minted result => !result.isOk
  | .decremented result => !result.isOk
  | .amount _ => false

/-- What is left after a decrement that succeeded. -/
def BudgetReply.left : BudgetReply → Option Int64
  | .decremented (.ok left) => some left
  | .decremented (.error _) | .minted _ | .amount _ => none

section Sequences
variable (overflowChecks : Bool)

/-- One operation, on a lock that is not poisoned. -/
def BudgetTable.operate (t : BudgetTable) : BudgetOp → Option BudgetReply × BudgetTable
  | .mint traceId amount => ((some (.minted (t.mint traceId amount).1)), (t.mint traceId amount).2)
  | .decrement traceId amount =>
    ((t.decrement overflowChecks traceId amount).1.map .decremented,
      (t.decrement overflowChecks traceId amount).2)
  | .remaining traceId => (some (.amount (t.remaining traceId)), t)
  | .remove traceId => (some (.amount (t.remove traceId).1), (t.remove traceId).2)

def BudgetTable.apply (t : BudgetTable) (op : BudgetOp) : Option BudgetReply × BudgetTable :=
  if t.poisoned then (none, t) else t.operate overflowChecks op

def BudgetTable.after (t : BudgetTable) (ops : List BudgetOp) : BudgetTable :=
  ops.foldl (fun t op => (t.apply overflowChecks op).2) t

/-- What an operation takes from the cell of a trace: the amount of a decrement that succeeds. -/
def BudgetTable.charge (t : BudgetTable) (traceId : Uuid) : BudgetOp → ℤ
  | .decrement id amount =>
    if id = traceId ∧ ((t.apply overflowChecks (.decrement id amount)).1.bind BudgetReply.left).isSome
    then amount.toInt else 0
  | .mint _ _ | .remaining _ | .remove _ => 0

/-- What a sequence of operations takes from the cell of a trace. -/
def BudgetTable.spent (t : BudgetTable) (traceId : Uuid) : List BudgetOp → ℤ
  | [] => 0
  | op :: ops => t.charge overflowChecks traceId op +
      BudgetTable.spent (t.apply overflowChecks op).2 traceId ops

/-! ## The law of a budget -/

/-- The subtraction that an operation makes is not that of the integers. -/
def BudgetTable.Overflows (t : BudgetTable) : BudgetOp → Prop
  | .decrement id amount => ∃ current, t.remaining id = some current ∧ amount ≤ current ∧
      SubOverflows current amount
  | .mint _ _ | .remaining _ | .remove _ => False

/-- No cell grows, nothing overflows, and an operation that fails leaves every cell as it is. -/
structure StepFalls (t : BudgetTable) (op : BudgetOp) : Prop where
  exact : ¬ t.Overflows op
  falls : ∀ id before after, t.remaining id = some before →
    (t.apply overflowChecks op).2.remaining id = some after → after ≤ before
  keeps : ∀ reply, (t.apply overflowChecks op).1 = some reply → reply.isErr = true →
    (t.apply overflowChecks op).2.cells = t.cells

/-- A property of each operation in the state that it meets. -/
def AllSteps (P : BudgetTable → BudgetOp → Prop) (t : BudgetTable) : List BudgetOp → Prop
  | [] => True
  | op :: ops => P t op ∧ AllSteps P (t.apply overflowChecks op).2 ops

/-- The cell of a trace, minted with `a` and not removed since, is down by what was taken from it. -/
def CellFell (id : Uuid) (a : Int64) (t : BudgetTable) (spent : ℤ) : Prop :=
  ∃ r, t.remaining id = some r ∧ r ≤ a ∧ (0 ≤ a → 0 ≤ r) ∧ r.toInt = a.toInt - spent

/-- Budgets only go down, over a whole sequence of operations on a new table. -/
structure BudgetsFall (ops : List BudgetOp) : Prop where
  steps : AllSteps overflowChecks (StepFalls overflowChecks) .new ops
  cells : ∀ before id a after rest, ops = before ++ .mint id a :: (after ++ rest) →
    ((BudgetTable.new.after overflowChecks before).apply overflowChecks (.mint id a)).1 =
      some (.minted (.ok ())) → .remove id ∉ after →
    CellFell id a (BudgetTable.new.after overflowChecks (before ++ .mint id a :: after))
      ((BudgetTable.new.after overflowChecks (before ++ [.mint id a])).spent overflowChecks id after)

/-- A decrement is not by a negative amount that the cell covers. -/
def Gentle (t : BudgetTable) : BudgetOp → Prop
  | .decrement id amount => ∀ current, t.remaining id = some current → amount ≤ current → 0 ≤ amount
  | .mint _ _ | .remaining _ | .remove _ => True

variable {overflowChecks}

/-! ## One operation -/

theorem not_subOverflows {a b : Int64} (hb : 0 ≤ b) (h : b ≤ a) : ¬ SubOverflows a b :=
  not_not.mpr (Int64.toInt_sub_of_le a b hb h)

theorem sub_le_self_of_nonneg {a b : Int64} (hb : 0 ≤ b) (h : b ≤ a) : a - b ≤ a := by
  have hsub := Int64.toInt_sub_of_le a b hb h
  have hzero : (0 : ℤ) ≤ b.toInt := by simpa [Int64.le_iff_toInt_le] using hb
  rw [Int64.le_iff_toInt_le]
  omega

theorem sub_nonneg_of_le {a b : Int64} (hb : 0 ≤ b) (h : b ≤ a) : 0 ≤ a - b := by
  have hsub := Int64.toInt_sub_of_le a b hb h
  rw [Int64.le_iff_toInt_le] at h ⊢
  simp only [Int64.toInt_zero]
  omega

/-- A subtraction that does not overflow and does not rise is by no negative amount. -/
theorem nonneg_of_sub_le {a b : Int64} (hexact : ¬ SubOverflows a b) (h : a - b ≤ a) : 0 ≤ b := by
  have hsub : (a - b).toInt = a.toInt - b.toInt := not_not.mp hexact
  rw [Int64.le_iff_toInt_le] at h ⊢
  simp only [Int64.toInt_zero]
  omega

variable (overflowChecks) in
/-- All that a decrement can do. -/
theorem decrement_cases (t : BudgetTable) (id : Uuid) (amount : Int64) :
    (t.remaining id = none ∧ t.decrement overflowChecks id amount = (some (.error .notFound), t)) ∨
    ∃ current, t.remaining id = some current ∧
      ((current < amount ∧ t.decrement overflowChecks id amount =
          (some (.error (.insufficient current amount)), t)) ∨
        (amount ≤ current ∧ SubOverflows current amount ∧
          t.decrement overflowChecks id amount = (none, { t with poisoned := true })) ∨
        (amount ≤ current ∧ t.decrement overflowChecks id amount = (some (.ok (current - amount)),
          { t with cells := t.cells.insert id (current - amount) }))) := by
  unfold BudgetTable.decrement BudgetTable.remaining
  cases hcell : t.cells.lookup id with
  | none => exact .inl ⟨rfl, rfl⟩
  | some current =>
    refine .inr ⟨current, rfl, ?_⟩
    by_cases hlt : current < amount
    · exact .inl ⟨hlt, by simp [hlt]⟩
    have hle : amount ≤ current := Int64.not_lt.mp hlt
    by_cases hover : overflowChecks = true ∧ SubOverflows current amount
    · exact .inr (.inl ⟨hle, hover.2, by simp [hlt, hover]⟩)
    · exact .inr (.inr ⟨hle, by simp only [if_neg hlt, if_neg hover]⟩)

/-- All that minting can do. -/
theorem mint_cases (t : BudgetTable) (id : Uuid) (amount : Int64) :
    (t.remaining id = none ∧
      t.mint id amount = (.ok (), { t with cells := t.cells.insert id amount })) ∨
    ∃ current, t.remaining id = some current ∧ t.mint id amount = (.error .alreadyExists, t) := by
  unfold BudgetTable.mint BudgetTable.remaining
  cases hcell : t.cells.lookup id with
  | none => exact .inl ⟨rfl, rfl⟩
  | some current => exact .inr ⟨current, rfl, rfl⟩

theorem remaining_insert (t : BudgetTable) (id other : Uuid) (n : Int64) :
    ({ t with cells := t.cells.insert id n } : BudgetTable).remaining other =
      if other = id then some n else t.remaining other := by
  unfold BudgetTable.remaining
  split_ifs with h
  · rw [h, AList.lookup_insert]
  · rw [AList.lookup_insert_ne h]

theorem apply_eq_operate {t : BudgetTable} (h : t.poisoned = false) (op : BudgetOp) :
    t.apply overflowChecks op = t.operate overflowChecks op := by
  unfold BudgetTable.apply
  rw [h]
  rfl

theorem unpoisoned_apply {t : BudgetTable} {op : BudgetOp} (h : t.poisoned = false)
    (hexact : ¬ t.Overflows op) : (t.apply overflowChecks op).2.poisoned = false := by
  rw [apply_eq_operate h]
  cases op with
  | mint id amount =>
    simp only [BudgetTable.operate]
    obtain ⟨-, heq⟩ | ⟨current, -, heq⟩ := mint_cases t id amount <;> rw [heq] <;> exact h
  | remaining id => exact h
  | remove id => exact h
  | decrement id amount =>
    simp only [BudgetTable.operate]
    obtain ⟨-, heq⟩ | ⟨current, hcell, ⟨-, heq⟩ | ⟨hle, hover, -⟩ | ⟨-, heq⟩⟩ :=
      decrement_cases overflowChecks t id amount
    · rw [heq]
      exact h
    · rw [heq]
      exact h
    · exact absurd ⟨current, hcell, hle, hover⟩ hexact
    · rw [heq]
      exact h

theorem not_overflows_of_gentle {t : BudgetTable} {op : BudgetOp} (h : Gentle t op) :
    ¬ t.Overflows op := by
  cases op with
  | decrement id amount =>
    rintro ⟨current, hcell, hle, hover⟩
    exact not_subOverflows (h current hcell hle) hle hover
  | mint id amount => exact not_false
  | remaining id => exact not_false
  | remove id => exact not_false

/-- An operation that changes no cell meets the law of a step. -/
theorem stepFalls_of_cells_eq {t : BudgetTable} {op : BudgetOp} (hexact : ¬ t.Overflows op)
    (h : (t.apply overflowChecks op).2.cells = t.cells) : StepFalls overflowChecks t op := by
  refine ⟨hexact, ?_, fun _ _ _ => h⟩
  intro id before after hbefore hafter
  unfold BudgetTable.remaining at hbefore hafter
  rw [h, hbefore] at hafter
  exact Int64.le_of_eq (Option.some.inj hafter).symm

theorem stepFalls_mint {t : BudgetTable} (h : t.poisoned = false) (id : Uuid) (amount : Int64) :
    StepFalls overflowChecks t (.mint id amount) := by
  obtain ⟨hcell, heq⟩ | ⟨current, -, heq⟩ := mint_cases t id amount
  · refine ⟨not_false, ?_, ?_⟩
    · intro other before after hbefore hafter
      rw [apply_eq_operate h, BudgetTable.operate, heq, remaining_insert] at hafter
      split_ifs at hafter with hother
      · rw [hother, hcell] at hbefore
        cases hbefore
      · rw [hbefore] at hafter
        exact Int64.le_of_eq (Option.some.inj hafter).symm
    · intro reply hreply herr
      rw [apply_eq_operate h, BudgetTable.operate, heq] at hreply
      cases hreply
      simp [BudgetReply.isErr, Except.isOk, Except.toBool] at herr
  · refine stepFalls_of_cells_eq not_false ?_
    rw [apply_eq_operate h, BudgetTable.operate, heq]

theorem stepFalls_remove {t : BudgetTable} (h : t.poisoned = false) (id : Uuid) :
    StepFalls overflowChecks t (.remove id) := by
  refine ⟨not_false, ?_, ?_⟩
  · intro other before after hbefore hafter
    rw [apply_eq_operate h] at hafter
    simp only [BudgetTable.operate, BudgetTable.remove, BudgetTable.remaining] at hbefore hafter
    by_cases hother : other = id
    · rw [hother, AList.lookup_erase] at hafter
      cases hafter
    · rw [AList.lookup_erase_ne hother, hbefore] at hafter
      exact Int64.le_of_eq (Option.some.inj hafter).symm
  · intro reply hreply herr
    rw [apply_eq_operate h] at hreply
    cases hreply
    cases herr

theorem stepFalls_decrement_iff {t : BudgetTable} (h : t.poisoned = false) (id : Uuid)
    (amount : Int64) :
    StepFalls overflowChecks t (.decrement id amount) ↔ Gentle t (.decrement id amount) := by
  have happly : (t.apply overflowChecks (.decrement id amount)).2 =
      (t.decrement overflowChecks id amount).2 := by rw [apply_eq_operate h, BudgetTable.operate]
  constructor
  · intro hfalls current hcell hle
    obtain ⟨hnone, -⟩ | ⟨_, hsome, ⟨hlt, -⟩ | ⟨-, hover, -⟩ | ⟨-, heq⟩⟩ :=
      decrement_cases overflowChecks t id amount
    · rw [hcell] at hnone
      cases hnone
    · obtain rfl := Option.some.inj (hcell.symm.trans hsome)
      exact absurd hlt (Int64.not_lt.mpr hle)
    · obtain rfl := Option.some.inj (hcell.symm.trans hsome)
      exact absurd ⟨current, hcell, hle, hover⟩ hfalls.exact
    · obtain rfl := Option.some.inj (hcell.symm.trans hsome)
      have hexact : ¬ SubOverflows current amount :=
        fun hover => hfalls.exact ⟨current, hcell, hle, hover⟩
      refine nonneg_of_sub_le hexact (hfalls.falls id current _ hcell ?_)
      rw [happly, heq, remaining_insert, if_pos rfl]
  · intro hgentle
    have hexact := not_overflows_of_gentle hgentle
    obtain ⟨-, heq⟩ | ⟨current, hcell, ⟨-, heq⟩ | ⟨hle, hover, -⟩ | ⟨hle, heq⟩⟩ :=
      decrement_cases overflowChecks t id amount
    · exact stepFalls_of_cells_eq hexact (by rw [happly, heq])
    · exact stepFalls_of_cells_eq hexact (by rw [happly, heq])
    · exact absurd ⟨current, hcell, hle, hover⟩ hexact
    · refine ⟨hexact, ?_, ?_⟩
      · intro other before after hbefore hafter
        rw [happly, heq, remaining_insert] at hafter
        split_ifs at hafter with hother
        · rw [hother, hcell] at hbefore
          obtain rfl := Option.some.inj hbefore
          obtain rfl := Option.some.inj hafter
          exact sub_le_self_of_nonneg (hgentle _ hcell hle) hle
        · rw [hbefore] at hafter
          exact Int64.le_of_eq (Option.some.inj hafter).symm
      · intro reply hreply herr
        rw [apply_eq_operate h, BudgetTable.operate, heq] at hreply
        cases hreply
        simp [BudgetReply.isErr, Except.isOk, Except.toBool] at herr

theorem stepFalls_iff_gentle {t : BudgetTable} (h : t.poisoned = false) (op : BudgetOp) :
    StepFalls overflowChecks t op ↔ Gentle t op := by
  cases op with
  | mint id amount => exact iff_of_true (stepFalls_mint h id amount) trivial
  | decrement id amount => exact stepFalls_decrement_iff h id amount
  | remaining id =>
    refine iff_of_true (stepFalls_of_cells_eq not_false ?_) trivial
    rw [apply_eq_operate h, BudgetTable.operate]
  | remove id => exact iff_of_true (stepFalls_remove h id) trivial

/-! ## Sequences of operations -/

theorem after_append (t : BudgetTable) (xs ys : List BudgetOp) :
    t.after overflowChecks (xs ++ ys) =
      (t.after overflowChecks xs).after overflowChecks ys := by
  simp [BudgetTable.after]

theorem allSteps_append {P : BudgetTable → BudgetOp → Prop} (xs ys : List BudgetOp)
    (t : BudgetTable) : AllSteps overflowChecks P t (xs ++ ys) ↔
      AllSteps overflowChecks P t xs ∧
        AllSteps overflowChecks P (t.after overflowChecks xs) ys := by
  induction xs generalizing t with
  | nil => simp [AllSteps, BudgetTable.after]
  | cons x xs ih =>
    simp only [List.cons_append, AllSteps, ih, and_assoc]
    rfl

theorem allSteps_falls_iff {t : BudgetTable} (h : t.poisoned = false) (ops : List BudgetOp) :
    AllSteps overflowChecks (StepFalls overflowChecks) t ops ↔ AllSteps overflowChecks Gentle t ops := by
  induction ops generalizing t with
  | nil => exact Iff.rfl
  | cons op ops ih =>
    simp only [AllSteps]
    rw [stepFalls_iff_gentle h op]
    refine and_congr_right fun hgentle => ?_
    exact ih (unpoisoned_apply h (not_overflows_of_gentle hgentle))

theorem unpoisoned_after {t : BudgetTable} (h : t.poisoned = false) {ops : List BudgetOp}
    (hall : AllSteps overflowChecks Gentle t ops) :
    (t.after overflowChecks ops).poisoned = false := by
  induction ops generalizing t with
  | nil => exact h
  | cons op ops ih => exact ih (unpoisoned_apply h (not_overflows_of_gentle hall.1)) hall.2

theorem CellFell.of_eq {t t' : BudgetTable} {id : Uuid} {a : Int64} {spent spent' : ℤ}
    (h : CellFell id a t spent) (hcell : t'.remaining id = t.remaining id) (hspent : spent' = spent) :
    CellFell id a t' spent' := by
  rw [CellFell, hcell, hspent]
  exact h

/-- A decrement that the cell covers takes its amount. -/
theorem CellFell.sub {t : BudgetTable} {id : Uuid} {a current amount : Int64} {spent : ℤ}
    (h : CellFell id a t spent) (hcurrent : t.remaining id = some current) (hpos : 0 ≤ amount)
    (hle : amount ≤ current) :
    CellFell id a { t with cells := t.cells.insert id (current - amount) } (spent + amount.toInt) := by
  obtain ⟨r, hr, hra, -, hsum⟩ := h
  obtain rfl := Option.some.inj (hr.symm.trans hcurrent)
  have hsub := Int64.toInt_sub_of_le r amount hpos hle
  refine ⟨r - amount, by rw [remaining_insert, if_pos rfl], ?_, fun _ => sub_nonneg_of_le hpos hle, ?_⟩
  · exact Int64.le_trans (sub_le_self_of_nonneg hpos hle) hra
  · omega

/-- One operation takes from a cell what it charges. -/
theorem cellFell_apply {t : BudgetTable} {op : BudgetOp} {id : Uuid} {a : Int64} {spent : ℤ}
    (h : t.poisoned = false) (hgentle : Gentle t op) (hop : op ≠ .remove id)
    (hcell : CellFell id a t spent) :
    CellFell id a (t.apply overflowChecks op).2 (spent + t.charge overflowChecks id op) := by
  cases op with
  | mint other amount =>
    refine hcell.of_eq ?_ (by simp [BudgetTable.charge])
    rw [apply_eq_operate h, BudgetTable.operate]
    obtain ⟨hnone, heq⟩ | ⟨current, -, heq⟩ := mint_cases t other amount
    · obtain ⟨r, hr, -⟩ := hcell
      rw [heq, remaining_insert, if_neg]
      rintro rfl
      rw [hr] at hnone
      cases hnone
    · rw [heq]
  | remaining other =>
    refine hcell.of_eq ?_ (by simp [BudgetTable.charge])
    rw [apply_eq_operate h, BudgetTable.operate]
  | remove other =>
    refine hcell.of_eq ?_ (by simp [BudgetTable.charge])
    have hne : id ≠ other := fun heq => hop (heq ▸ rfl)
    rw [apply_eq_operate h]
    simp only [BudgetTable.operate, BudgetTable.remove, BudgetTable.remaining]
    exact AList.lookup_erase_ne hne
  | decrement other amount =>
    simp only [BudgetTable.charge]
    rw [apply_eq_operate h, BudgetTable.operate]
    obtain ⟨hnone, heq⟩ | ⟨current, hcurrent, ⟨-, heq⟩ | ⟨hle, hover, -⟩ | ⟨hle, heq⟩⟩ :=
      decrement_cases overflowChecks t other amount
    · rw [heq]
      exact hcell.of_eq rfl (by simp [BudgetReply.left])
    · rw [heq]
      exact hcell.of_eq rfl (by simp [BudgetReply.left])
    · exact absurd ⟨current, hcurrent, hle, hover⟩ (not_overflows_of_gentle hgentle)
    · rw [heq]
      by_cases hother : other = id
      · subst hother
        have hfell := hcell.sub hcurrent (hgentle current hcurrent hle) hle
        simpa [BudgetReply.left] using hfell
      · refine hcell.of_eq ?_ (by simp [hother])
        rw [remaining_insert, if_neg (Ne.symm hother)]

theorem cellFell_after {t : BudgetTable} {ops : List BudgetOp} {id : Uuid} {a : Int64} {spent : ℤ}
    (h : t.poisoned = false) (hall : AllSteps overflowChecks Gentle t ops) (hops : .remove id ∉ ops)
    (hcell : CellFell id a t spent) : CellFell id a (t.after overflowChecks ops)
      (spent + t.spent overflowChecks id ops) := by
  induction ops generalizing t spent with
  | nil => simpa [BudgetTable.after, BudgetTable.spent] using hcell
  | cons op ops ih =>
    rw [List.mem_cons, not_or] at hops
    have hstep : CellFell id a (t.apply overflowChecks op).2
        (spent + t.charge overflowChecks id op) := cellFell_apply h hall.1 (Ne.symm hops.1) hcell
    have hrest := ih (unpoisoned_apply h (not_overflows_of_gentle hall.1)) hall.2 hops.2 hstep
    simp only [BudgetTable.spent]
    rw [← Int.add_assoc]
    exact hrest

theorem cellFell_mint {t : BudgetTable} {id : Uuid} {a : Int64} (h : t.poisoned = false)
    (hmint : (t.apply overflowChecks (.mint id a)).1 = some (.minted (.ok ()))) :
    CellFell id a (t.apply overflowChecks (.mint id a)).2 0 := by
  rw [apply_eq_operate h, BudgetTable.operate] at hmint ⊢
  obtain ⟨-, heq⟩ | ⟨current, -, heq⟩ := mint_cases t id a
  · rw [heq]
    exact ⟨a, by rw [remaining_insert, if_pos rfl], Int64.le_refl a, fun hpos => hpos, by simp⟩
  · rw [heq] at hmint
    cases hmint

/-- Budgets only go down exactly in the sequences in which no cell is decremented by a negative
amount. -/
theorem budgets_fall_iff (overflowChecks : Bool) (ops : List BudgetOp) :
    BudgetsFall overflowChecks ops ↔ AllSteps overflowChecks Gentle .new ops := by
  constructor
  · intro hfall
    exact (allSteps_falls_iff rfl ops).mp hfall.steps
  · intro hgentle
    refine ⟨(allSteps_falls_iff rfl ops).mpr hgentle, ?_⟩
    rintro before id a after rest rfl hmint hremove
    rw [allSteps_append] at hgentle
    obtain ⟨hbefore, -, hafter⟩ := hgentle
    rw [allSteps_append] at hafter
    have hnew := unpoisoned_after rfl hbefore
    have hmid : ((BudgetTable.new.after overflowChecks before).apply overflowChecks
        (.mint id a)).2.poisoned = false := unpoisoned_apply hnew not_false
    have hcell := cellFell_after hmid hafter.1 hremove (cellFell_mint hnew hmint)
    rw [after_append, after_append]
    simpa [BudgetTable.after] using hcell

/-- A negative decrement raises a budget above what was minted, and can overflow. -/
theorem negative_decrement_raises_budget :
    (BudgetTable.new.after true [.mint default 50, .decrement default (-30)]).remaining default =
        some 80 ∧
      ((BudgetTable.new.after true [.mint default Int64.maxValue]).apply true
        (.decrement default (-1))).1.isNone = true ∧
      ¬ BudgetsFall true [.mint default 50, .decrement default (-30)] := by
  refine ⟨by decide +kernel, by decide +kernel, ?_⟩
  intro hfall
  obtain ⟨-, hgentle, -⟩ := (allSteps_falls_iff rfl _).mp hfall.steps
  exact absurd (hgentle 50 (by decide +kernel) (by decide +kernel)) (by decide +kernel)

end Sequences
end Konf.Runtime
