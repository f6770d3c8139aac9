import Konf.Foundations.Fallible
import Mathlib.Data.Nat.Basic
import Mathlib.Tactic.Linarith

/-! # Codecs without field tags

Values written one after the other as bytes, each read back by a decoder that takes what it needs from
the front of the input. Nothing in the bytes says where a value ends or what it is, so a value that was
never written is an input that ends too early. The integers are in groups of seven bits, the strings
and options have a length or a mark in front. -/

namespace Konf
set_option autoImplicit false

inductive DecodeError
  | unexpectedEnd
  | badVarint
  | badUtf8
  | badOption
deriving DecidableEq, Repr

abbrev Decoder (α : Type) : Type := List UInt8 → Except DecodeError (α × List UInt8)

/-- A way to write the values of a type that can be read back, whatever follows them. Reading from no
input at all fails. -/
structure Codec (α : Type) where
  valid : α → Prop
  encode : α → List UInt8
  decode : Decoder α
  decode_encode : ∀ a rest, valid a → decode (encode a ++ rest) = .ok (a, rest)
  decode_nil : decode [] = .error .unexpectedEnd

namespace Codec

/-! ## Integers -/

/-- At most `k` groups of seven bits, lowest first, with the high bit set on all but the last. -/
def encodeGroups : ℕ → ℕ → List UInt8
  | 0, _ => []
  | k + 1, n =>
    if n < 128 then [UInt8.ofNat n] else UInt8.ofNat (n % 128 + 128) :: encodeGroups k (n / 128)

def decodeGroups : ℕ → Decoder ℕ
  | 0, _ => .error .badVarint
  | _ + 1, [] => .error .unexpectedEnd
  | k + 1, b :: rest =>
    if b.toNat < 128 then .ok (b.toNat, rest)
    else do
      let (high, rest) ← decodeGroups k rest
      .ok (b.toNat - 128 + 128 * high, rest)

theorem decodeGroups_encodeGroups (k n : ℕ) (hn : n < 128 ^ (k + 1)) (rest : List UInt8) :
    decodeGroups (k + 1) (encodeGroups (k + 1) n ++ rest) = .ok (n, rest) := by
  induction k generalizing n with
  | zero =>
    have hlow : n < 128 := by omega
    have hbyte : (UInt8.ofNat n).toNat = n := by
      rw [UInt8.toNat_ofNat']
      omega
    simp [encodeGroups, decodeGroups, hlow, hbyte]
  | succ k ih =>
    rw [encodeGroups]
    split_ifs with hlow
    · have hbyte : (UInt8.ofNat n).toNat = n := by
        rw [UInt8.toNat_ofNat']
        omega
      simp [decodeGroups, hlow, hbyte]
    · have hbyte : (UInt8.ofNat (n % 128 + 128)).toNat = n % 128 + 128 := by
        rw [UInt8.toNat_ofNat']
        omega
      have hhigh : n / 128 < 128 ^ (k + 1) := by
        rw [Nat.div_lt_iff_lt_mul (by omega), ← pow_succ]
        exact hn
      rw [List.cons_append, decodeGroups, hbyte, if_neg (by omega), ih (n / 128) hhigh]
      have hvalue : n % 128 + 128 - 128 + 128 * (n / 128) = n := by omega
      show Except.ok (n % 128 + 128 - 128 + 128 * (n / 128), rest) = .ok (n, rest)
      rw [hvalue]

/-- A 64-bit word in at most ten groups. -/
def decodeVarint : Decoder ℕ := fun bytes => do
  let (n, rest) ← decodeGroups 10 bytes
  if n < 2 ^ 64 then .ok (n, rest) else .error .badVarint

def varint : Codec ℕ where
  valid n := n < 2 ^ 64
  encode := encodeGroups 10
  decode := decodeVarint
  decode_encode n rest hn := by
    have hgroups := decodeGroups_encodeGroups 9 n (by omega) rest
    unfold decodeVarint
    rw [hgroups]
    exact if_pos hn
  decode_nil := rfl

/-- Signed words by size, the sign in the lowest bit. -/
def zigzag (z : ℤ) : ℕ := if 0 ≤ z then (2 * z).toNat else (-2 * z - 1).toNat

def unzigzag (n : ℕ) : ℤ := if n % 2 = 0 then n / 2 else -((n + 1) / 2)

theorem unzigzag_zigzag (z : ℤ) : unzigzag (zigzag z) = z := by
  unfold zigzag unzigzag
  split_ifs with hsign heven heven
  · omega
  · omega
  · omega
  · omega

def signed : Codec ℤ where
  valid z := -2 ^ 63 ≤ z ∧ z < 2 ^ 63
  encode z := varint.encode (zigzag z)
  decode bytes := do
    let (n, rest) ← varint.decode bytes
    .ok (unzigzag n, rest)
  decode_encode z rest hz := by
    have hword : zigzag z < 2 ^ 64 := by
      unfold zigzag
      split_ifs <;> omega
    rw [varint.decode_encode _ _ hword]
    show Except.ok (unzigzag (zigzag z), rest) = .ok (z, rest)
    rw [unzigzag_zigzag]
  decode_nil := rfl

/-! ## Blocks of bytes, strings, options -/

def takeBytes (n : ℕ) : Decoder (List UInt8) := fun bytes =>
  if bytes.length < n then .error .unexpectedEnd else .ok (bytes.take n, bytes.drop n)

theorem takeBytes_append {n : ℕ} {block : List UInt8} (hlen : block.length = n)
    (rest : List UInt8) : takeBytes n (block ++ rest) = .ok (block, rest) := by
  unfold takeBytes
  rw [if_neg (by rw [List.length_append]; omega), List.take_left' hlen, List.drop_left' hlen]

/-- A block of `n + 1` bytes as it is. -/
def block (n : ℕ) : Codec (List UInt8) where
  valid bytes := bytes.length = n + 1
  encode bytes := bytes
  decode := takeBytes (n + 1)
  decode_encode _ rest hlen := takeBytes_append hlen rest
  decode_nil := by
    unfold takeBytes
    rw [if_pos (by simp)]

def utf8Bytes (s : String) : List UInt8 := s.toByteArray.data.toList

def fromUtf8 (bytes : List UInt8) : Except DecodeError String :=
  (String.fromUTF8? ⟨bytes.toArray⟩).elim (.error .badUtf8) .ok

theorem fromUtf8_utf8Bytes (s : String) : fromUtf8 (utf8Bytes s) = .ok s := by
  have hfrom : String.fromUTF8? s.toByteArray = some s := dif_pos s.isValidUTF8
  unfold fromUtf8 utf8Bytes
  rw [Array.toArray_toList]
  show (String.fromUTF8? s.toByteArray).elim _ _ = _
  rw [hfrom]
  rfl

/-- A string is its length in bytes and the bytes. -/
def string : Codec String where
  valid s := (utf8Bytes s).length < 2 ^ 64
  encode s := varint.encode (utf8Bytes s).length ++ utf8Bytes s
  decode bytes := do
    let (n, rest) ← varint.decode bytes
    let (text, rest) ← takeBytes n rest
    let s ← fromUtf8 text
    .ok (s, rest)
  decode_encode s rest hlen := by
    rw [List.append_assoc, varint.decode_encode _ _ hlen]
    show (do
      let (text, rest) ← takeBytes (utf8Bytes s).length (utf8Bytes s ++ rest)
      let s ← fromUtf8 text
      Except.ok (s, rest)) = .ok (s, rest)
    rw [takeBytes_append rfl]
    show (do
      let s ← fromUtf8 (utf8Bytes s)
      Except.ok (s, rest)) = .ok (s, rest)
    rw [fromUtf8_utf8Bytes]
    rfl
  decode_nil := rfl

/-- A mark that says whether a value follows. -/
def option {α : Type} (c : Codec α) : Codec (Option α) where
  valid o := ∀ a, o = some a → c.valid a
  encode
    | none => [0]
    | some a => 1 :: c.encode a
  decode
    | [] => .error .unexpectedEnd
    | b :: rest =>
      if b = 0 then .ok (none, rest)
      else if b = 1 then do
        let (a, rest) ← c.decode rest
        .ok (some a, rest)
      else .error .badOption
  decode_encode o rest hvalid := by
    cases o with
    | none => rfl
    | some a =>
      show (do
        let (a, rest) ← c.decode (c.encode a ++ rest)
        Except.ok (some a, rest)) = .ok (some a, rest)
      rw [c.decode_encode a rest (hvalid a rfl)]
      rfl
  decode_nil := rfl

end Codec

end Konf
