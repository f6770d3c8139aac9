import Mathlib.Data.List.AList

/-! # JSON values and string-keyed maps

`Json` is the value type of `serde_json`: an object is the entry list of a map sorted by key, and
`insertField` keeps that order. A float is kept as its IEEE-754 bits and never computed with.
`StrMap V` is a finite map with string keys (a Rust `HashMap<String, V>` or `BTreeMap`); the entry
order of a `StrMap` stands for the map's iteration order. -/

namespace Konf
set_option autoImplicit false

abbrev StrMap (V : Type) : Type := AList (fun _ : String => V)

/-- The map with the given entries, in this iteration order. -/
def StrMap.ofList {V : Type} (l : List (String × V)) (h : (l.map Prod.fst).Nodup) : StrMap V where
  entries := l.map fun e => ⟨e.1, e.2⟩
  nodupKeys := by
    rw [List.NodupKeys, List.keys, List.map_map]
    exact h

/-- A JSON number: an integer, or a float given by its bits. -/
inductive JsonNumber
  | int (i : Int)
  | float (bits : UInt64)
deriving DecidableEq, Repr, Inhabited

inductive Json
  | null
  | bool (b : Bool)
  | num (n : JsonNumber)
  | str (s : String)
  | arr (items : List Json)
  | obj (fields : List (String × Json))
deriving Repr, Inhabited

namespace Json

/-! ## Decidable equality -/

mutual
def decEq : (a b : Json) → Decidable (a = b)
  | .null, .null => isTrue rfl
  | .bool a, .bool b => decidable_of_iff (a = b) (by simp)
  | .num a, .num b => decidable_of_iff (a = b) (by simp)
  | .str a, .str b => decidable_of_iff (a = b) (by simp)
  | .arr a, .arr b => @decidable_of_iff _ (a = b) (by simp) (decEqItems a b)
  | .obj a, .obj b => @decidable_of_iff _ (a = b) (by simp) (decEqFields a b)
  | .null, .bool _ | .null, .num _ | .null, .str _ | .null, .arr _ | .null, .obj _
  | .bool _, .null | .bool _, .num _ | .bool _, .str _ | .bool _, .arr _ | .bool _, .obj _
  | .num _, .null | .num _, .bool _ | .num _, .str _ | .num _, .arr _ | .num _, .obj _
  | .str _, .null | .str _, .bool _ | .str _, .num _ | .str _, .arr _ | .str _, .obj _
  | .arr _, .null | .arr _, .bool _ | .arr _, .num _ | .arr _, .str _ | .arr _, .obj _
  | .obj _, .null | .obj _, .bool _ | .obj _, .num _ | .obj _, .str _ | .obj _, .arr _ =>
    isFalse (by simp)
def decEqItems : (a b : List Json) → Decidable (a = b)
  | [], [] => isTrue rfl
  | [], _ :: _ | _ :: _, [] => isFalse (by simp)
  | x :: xs, y :: ys =>
    match decEq x y, decEqItems xs ys with
    | isTrue h₁, isTrue h₂ => isTrue (by rw [h₁, h₂])
    | isFalse h, _ => isFalse (fun e => h (List.cons.inj e).1)
    | _, isFalse h => isFalse (fun e => h (List.cons.inj e).2)
def decEqFields : (a b : List (String × Json)) → Decidable (a = b)
  | [], [] => isTrue rfl
  | [], _ :: _ | _ :: _, [] => isFalse (by simp)
  | (k, x) :: xs, (l, y) :: ys =>
    match decEq x y, decEqFields xs ys with
    | isTrue h₁, isTrue h₂ =>
      if hk : k = l then isTrue (by rw [h₁, h₂, hk])
      else isFalse (fun e => hk (Prod.mk.inj (List.cons.inj e).1).1)
    | isFalse h, _ => isFalse (fun e => h (Prod.mk.inj (List.cons.inj e).1).2)
    | _, isFalse h => isFalse (fun e => h (List.cons.inj e).2)
end

instance : DecidableEq Json := decEq

/-! ## Reading -/

/-- `Value::get` with a string key. -/
def get (v : Json) (key : String) : Option Json :=
  match v with
  | .obj fields => fields.lookup key
  | _ => none

def asStr : Json → Option String
  | .str s => some s
  | _ => none

def asBool : Json → Option Bool
  | .bool b => some b
  | _ => none

def asU64 : Json → Option ℕ
  | .num (.int i) => if 0 ≤ i then some i.toNat else none
  | _ => none

def asArray : Json → Option (List Json)
  | .arr items => some items
  | _ => none

/-- The number that `as_f64` reads, before it is rounded. -/
def asNumber : Json → Option JsonNumber
  | .num n => some n
  | _ => none

def isNull : Json → Bool
  | .null => true
  | _ => false

def ofNat (n : ℕ) : Json := .num (.int n)

@[simp] theorem asU64_ofNat (n : ℕ) : (ofNat n).asU64 = some n := by
  simp [ofNat, asU64]

/-! ## Objects -/

/-- `Map::insert`: replace the value of the key or add it at its place in key order. -/
def insertField (key : String) (value : Json) :
    List (String × Json) → List (String × Json)
  | [] => [(key, value)]
  | (k, v) :: rest =>
    if key = k then (key, value) :: rest
    else if key < k then (key, value) :: (k, v) :: rest
    else (k, v) :: insertField key value rest

theorem lookup_insertField_self (key : String) (value : Json) (fields : List (String × Json)) :
    (insertField key value fields).lookup key = some value := by
  induction fields with
  | nil => simp [insertField]
  | cons f rest ih =>
    obtain ⟨k, v⟩ := f
    rw [insertField]
    split_ifs with h₁ h₂
    · simp
    · simp
    · have hb : (key == k) = false := by simpa using h₁
      rw [List.lookup_cons, hb]
      exact ih

theorem lookup_insertField_ne {key key' : String} (hne : key' ≠ key) (value : Json)
    (fields : List (String × Json)) :
    (insertField key value fields).lookup key' = fields.lookup key' := by
  have hb : (key' == key) = false := by simpa using hne
  induction fields with
  | nil => simp [insertField, List.lookup_cons, hb]
  | cons f rest ih =>
    obtain ⟨k, v⟩ := f
    rw [insertField]
    split_ifs with h₁ h₂
    · subst h₁
      rw [List.lookup_cons, List.lookup_cons, hb]
    · rw [List.lookup_cons, hb]
    · rw [List.lookup_cons, List.lookup_cons, ih]

/-! ## Reading back -/

mutual
/-- How deep arrays and objects nest. -/
def depth : Json → ℕ
  | .null | .bool _ | .num _ | .str _ => 0
  | .arr items => depthItems items + 1
  | .obj fields => depthFields fields + 1
def depthItems : List Json → ℕ
  | [] => 0
  | v :: rest => max (depth v) (depthItems rest)
def depthFields : List (String × Json) → ℕ
  | [] => 0
  | (_, v) :: rest => max (depth v) (depthFields rest)
end

theorem depthItems_eq_zero {items : List Json} (h : ∀ v ∈ items, v.depth = 0) :
    depthItems items = 0 := by
  induction items with
  | nil => rfl
  | cons v rest ih =>
    rw [depthItems, h v (List.mem_cons_self ..), ih fun w hw => h w (List.mem_cons_of_mem _ hw)]
    rfl

/-- The parser of `serde_json` gives up when it enters the 128th array or object inside another; the
printer has no limit. So not every value that is written can be read back. -/
def recursionLimit : ℕ := 128

def Readable (v : Json) : Prop := v.depth < recursionLimit

instance (v : Json) : Decidable v.Readable := inferInstanceAs (Decidable (_ < _))

/-- `from_str` on the text of `to_string`. The position that ends the message is left out. -/
def readBack (v : Json) : Except String Json :=
  if v.Readable then .ok v else .error "recursion limit exceeded"

theorem readBack_of_readable {v : Json} (h : v.Readable) : v.readBack = .ok v := if_pos h

theorem readBack_of_not_readable {v : Json} (h : ¬v.Readable) :
    v.readBack = .error "recursion limit exceeded" := if_neg h

/-- The value in `n` arrays. -/
def wrap : ℕ → Json → Json
  | 0, v => v
  | n + 1, v => .arr [wrap n v]

end Json
end Konf
