import Mathlib.Data.Nat.Bitwise
import Mathlib.Data.List.Basic

/-! # Address blocks

Blocks of the machine words that share their leading bits. -/

namespace Konf.Cidr
set_option autoImplicit false

/-- The words that agree with `base` in the first `bits` bits; the other bits of `base` are zero. -/
structure Block (w : ℕ) where
  base : BitVec w
  bits : ℕ
  bits_le : bits ≤ w
  aligned : 2 ^ (w - bits) ∣ base.toNat

variable {v w : ℕ}

instance : Membership (BitVec w) (Block w) :=
  ⟨fun b x => x.toNat / 2 ^ (w - b.bits) = b.base.toNat / 2 ^ (w - b.bits)⟩

theorem mem_def {b : Block w} {x : BitVec w} :
    x ∈ b ↔ x.toNat / 2 ^ (w - b.bits) = b.base.toNat / 2 ^ (w - b.bits) := Iff.rfl

instance (b : Block w) (x : BitVec w) : Decidable (x ∈ b) := decidable_of_iff _ mem_def.symm

theorem mem_iff_range {b : Block w} {x : BitVec w} :
    x ∈ b ↔ b.base.toNat ≤ x.toNat ∧ x.toNat < b.base.toNat + 2 ^ (w - b.bits) := by
  obtain ⟨k, hk⟩ := b.aligned
  have hpos : 0 < 2 ^ (w - b.bits) := Nat.two_pow_pos _
  rw [mem_def, hk, Nat.mul_div_cancel_left _ hpos, Nat.div_eq_iff hpos]
  rw [Nat.mul_comm k]
  omega

/-- A block with a longer prefix lies inside one that has its first word. -/
theorem mem_of_base_mem {b c : Block w} (hbits : c.bits ≤ b.bits) (hbase : b.base ∈ c)
    {x : BitVec w} (hx : x ∈ b) : x ∈ c := by
  have hsplit : w - c.bits = (w - b.bits) + (b.bits - c.bits) := by
    have hb := b.bits_le
    omega
  rw [mem_def] at hx hbase ⊢
  rw [hsplit, Nat.pow_add, ← Nat.div_div_eq_div_mul, ← Nat.div_div_eq_div_mul] at hbase ⊢
  rw [hx, hbase]

/-! ## Lists of blocks -/

def Covered (bs : List (Block w)) (x : BitVec w) : Prop := ∃ b ∈ bs, x ∈ b

instance (bs : List (Block w)) (x : BitVec w) : Decidable (Covered bs x) :=
  inferInstanceAs (Decidable (∃ b ∈ bs, x ∈ b))

@[simp] theorem covered_nil (x : BitVec w) : Covered [] x ↔ False := by simp [Covered]

@[simp] theorem covered_cons (b : Block w) (bs : List (Block w)) (x : BitVec w) :
    Covered (b :: bs) x ↔ x ∈ b ∨ Covered bs x := by simp [Covered]

/-! ## Blocks behind a prefix -/

theorem toNat_append_eq (p : BitVec v) (x : BitVec w) :
    (p ++ x).toNat = p.toNat * 2 ^ w + x.toNat := by
  rw [BitVec.toNat_append, ← Nat.shiftLeft_add_eq_or_of_lt x.isLt, Nat.shiftLeft_eq]

/-- The words that continue `p` with a word of the block. -/
def Block.behind (p : BitVec v) (b : Block w) : Block (v + w) where
  base := p ++ b.base
  bits := v + b.bits
  bits_le := Nat.add_le_add_left b.bits_le v
  aligned := by
    rw [toNat_append_eq, Nat.add_sub_add_left]
    refine Nat.dvd_add (Dvd.dvd.mul_left (Nat.pow_dvd_pow 2 (Nat.sub_le w b.bits)) _) b.aligned

/-- Past the prefix, the leading bits of a block count on from those of the prefix. -/
theorem append_div (p : BitVec v) (x : BitVec w) {bits : ℕ} (h : bits ≤ w) :
    (p ++ x).toNat / 2 ^ (w - bits) = p.toNat * 2 ^ bits + x.toNat / 2 ^ (w - bits) := by
  have hsplit : 2 ^ w = 2 ^ bits * 2 ^ (w - bits) := by rw [← Nat.pow_add, Nat.add_sub_cancel' h]
  rw [toNat_append_eq, hsplit, ← Nat.mul_assoc, Nat.add_comm,
    Nat.add_mul_div_right _ _ (Nat.two_pow_pos _), Nat.add_comm]

theorem leading_lt (x : BitVec w) {bits : ℕ} (h : bits ≤ w) : x.toNat / 2 ^ (w - bits) < 2 ^ bits := by
  rw [Nat.div_lt_iff_lt_mul (Nat.two_pow_pos _), ← Nat.pow_add, Nat.add_sub_cancel' h]
  exact x.isLt

theorem append_mem_behind {p q : BitVec v} {b : Block w} {x : BitVec w} :
    q ++ x ∈ b.behind p ↔ q = p ∧ x ∈ b := by
  have hpos : 0 < 2 ^ b.bits := Nat.two_pow_pos _
  have hx := leading_lt x b.bits_le
  have hbase := leading_lt b.base b.bits_le
  rw [mem_def, mem_def]
  simp only [Block.behind, Nat.add_sub_add_left]
  rw [append_div q x b.bits_le, append_div p b.base b.bits_le]
  constructor
  · intro h
    have hdiv := congrArg (· / 2 ^ b.bits) h
    have hmod := congrArg (· % 2 ^ b.bits) h
    simp only [Nat.mul_comm _ (2 ^ b.bits), Nat.mul_add_div hpos, Nat.mul_add_mod,
      Nat.div_eq_of_lt hx, Nat.div_eq_of_lt hbase, Nat.mod_eq_of_lt hx, Nat.mod_eq_of_lt hbase,
      Nat.add_zero] at hdiv hmod
    exact ⟨BitVec.eq_of_toNat_eq hdiv, hmod⟩
  · rintro ⟨rfl, h⟩
    rw [h]

end Konf.Cidr
