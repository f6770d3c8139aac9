import Konf.Foundations.Json
import Mathlib.Logic.Function.Basic

/-! # Records in JSON

How `serde` reads back what it writes: values with their codecs, records by the names of their fields,
some of which may be missing, and enumerations with the tag inside the object. A record may also be an
array of its fields in the order of their declaration. What an error says is left out. -/

namespace Konf
set_option autoImplicit false

variable {α : Type}

/-- A way to write the values of a type as JSON that can be read back. -/
structure JsonCodec (α : Type) where
  write : α → Json
  read : Json → Option α
  read_write : ∀ a, read (write a) = some a

namespace JsonCodec

theorem write_injective (c : JsonCodec α) : Function.Injective c.write := by
  intro a b h
  have hread : c.read (c.write a) = c.read (c.write b) := congrArg c.read h
  rw [c.read_write, c.read_write] at hread
  exact Option.some.inj hread

/-! ## Values -/

def value : JsonCodec Json := ⟨id, some, fun _ => rfl⟩

def string : JsonCodec String := ⟨.str, Json.asStr, fun _ => rfl⟩

def word : JsonCodec UInt64 where
  write n := Json.ofNat n.toNat
  read v := v.asU64.bind fun n => if n < 18446744073709551616 then some (.ofNat n) else none
  read_write n := by
    have hn : n.toNat < 18446744073709551616 := n.toNat_lt
    rw [Json.asU64_ofNat, Option.bind_some, if_pos hn, UInt64.ofNat_toNat]

def byte : JsonCodec UInt8 where
  write n := Json.ofNat n.toNat
  read v := v.asU64.bind fun n => if n < 256 then some (.ofNat n) else none
  read_write n := by
    have hn : n.toNat < 256 := n.toNat_lt
    rw [Json.asU64_ofNat, Option.bind_some, if_pos hn, UInt8.ofNat_toNat]

/-- A value that is written as text. -/
def text (format : α → String) (parse : String → Option α) (h : ∀ a, parse (format a) = some a) :
    JsonCodec α :=
  ⟨fun a => .str (format a), fun v => v.asStr.bind parse, h⟩

/-- An option, with null for none. -/
def nullable (c : JsonCodec α) (h : ∀ a, c.write a ≠ .null) : JsonCodec (Option α) where
  write
    | some a => c.write a
    | none => .null
  read v := if v.isNull = true then some none else (c.read v).map some
  read_write
    | none => rfl
    | some a => by
      have hvalue : (c.write a).isNull = false := by
        cases hv : c.write a with
        | null => exact absurd hv (h a)
        | bool | num | str | arr | obj => rfl
      show (if (c.write a).isNull = true then some none else (c.read (c.write a)).map some) = _
      rw [hvalue, c.read_write]
      rfl

theorem mapM_read (c : JsonCodec α) (l : List α) : (l.map c.write).mapM c.read = some l := by
  induction l with
  | nil => rfl
  | cons a l ih => simp [c.read_write, ih]

def list (c : JsonCodec α) : JsonCodec (List α) where
  write l := .arr (l.map c.write)
  read v := v.asArray.bind (List.mapM c.read)
  read_write l := c.mapM_read l

/-- An array of a fixed length. -/
def vector (n : ℕ) (c : JsonCodec α) : JsonCodec (Vector α n) where
  write l := .arr (l.toList.map c.write)
  read v := (v.asArray.bind (List.mapM c.read)).bind fun l =>
    if h : l.length = n then some ⟨l.toArray, h⟩ else none
  read_write l := by
    show ((l.toList.map c.write).mapM c.read).bind _ = _
    rw [c.mapM_read, Option.bind_some, dif_pos l.length_toList]
    rfl

end JsonCodec

/-! ## Records -/

/-- The fields of a record by name. -/
abbrev Fields : Type := String → Option Json

/-- The fields that a value has as a record with these names, of which the first ones must be there when
it is an array. -/
def Json.fields (names : List String) (required : ℕ) : Json → Option Fields
  | .obj fields => some fun name => fields.lookup name
  | .arr items =>
    if required ≤ items.length ∧ items.length ≤ names.length then
      some fun name => (names.zip items).lookup name
    else none
  | _ => none

/-- A field; one without a default is required. -/
structure Field (α : Type) where
  name : String
  codec : JsonCodec α
  default : Option α

namespace Field

def read (fd : Field α) (fields : Fields) : Option α :=
  match fields fd.name with
  | some v => fd.codec.read v
  | none => fd.default

def entry (fd : Field α) (a : α) : String × Json := (fd.name, fd.codec.write a)

end Field

/-- Each field is as it was written, or missing where that was its default. Other fields are free. -/
def Carries (names : List String) (written defaults : List (String × Json)) (fields : Fields) : Prop :=
  ∀ name ∈ names, fields name = written.lookup name ∨
    fields name = none ∧ defaults.lookup name = written.lookup name

theorem Field.read_carried {fd : Field α} {a : α} {names : List String}
    {written defaults : List (String × Json)} {fields : Fields} (h : Carries names written defaults fields)
    (hname : names.contains fd.name = true) (hwritten : written.lookup fd.name = some (fd.codec.write a))
    (hdefault : defaults.lookup fd.name = fd.default.map fd.codec.write) :
    fd.read fields = some a := by
  unfold read
  obtain hsame | ⟨hnone, hsame⟩ := h fd.name (List.contains_iff_mem.mp hname)
  · rw [hsame, hwritten]
    exact fd.codec.read_write a
  · rw [hnone]
    rw [hdefault, hwritten, Option.map_eq_some_iff] at hsame
    obtain ⟨b, hb, hwrite⟩ := hsame
    exact hb.trans (congrArg some (fd.codec.write_injective hwrite))

/-! ## Tagged enumerations -/

/-- What comes with the tag of an enumeration. -/
inductive Content
  | fields (fields : List (String × Json))
  | items (items : List Json)

/-- The tag, and what comes with it. -/
def Json.tagged (key : String) : Json → Option (String × Content)
  | .obj fields =>
    ((fields.lookup key).bind Json.asStr).map fun tag => (tag, .fields (fields.filter (·.1 != key)))
  | .arr (.str tag :: items) => some (tag, .items items)
  | _ => none

namespace Content

/-- A variant without fields; in an object, others are passed over. -/
def unit (a : α) : Content → Option α
  | .fields _ => some a
  | .items [] => some a
  | .items (_ :: _) => none

/-- A variant with one field. -/
def single {β : Type} (name : String) (c : JsonCodec β) (make : β → α) : Content → Option α
  | .fields found => ((found.lookup name).bind c.read).map make
  | .items [v] => (c.read v).map make
  | .items _ => none

end Content

end Konf
