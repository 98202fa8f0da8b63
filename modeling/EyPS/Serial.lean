/-
Sequence numbers and timestamps of KCP are 32-bit numbers that wrap. `_itimediff` reads the
distance of two of them as signed: it tells the earlier from the later as long as they are
less than `2 ^ 31` apart.
-/
import EyPS.Ikcp

namespace EyPS

theorem itimediff_eq (a b : UInt32) :
    itimediff a b = if (a - b).toNat < 2 ^ 31 then ((a - b).toNat : Int) else (a - b).toNat - 2 ^ 32 := by
  have h : (a - b).toInt32.toInt = (a - b).toBitVec.toInt := rfl
  rw [itimediff, h, BitVec.toInt_eq_toNat_cond]
  have hnat : (a - b).toBitVec.toNat = (a - b).toNat := rfl
  rw [hnat]
  by_cases hlt : (a - b).toNat < 2 ^ 31
  · rw [if_pos hlt, if_pos (by omega)]
  · rw [if_neg hlt, if_neg (by omega)]
    rfl

@[simp] theorem itimediff_self (a : UInt32) : itimediff a a = 0 := by simp [itimediff_eq]

theorem itimediff_nonneg_iff {a b : UInt32} : 0 ≤ itimediff a b ↔ (a - b).toNat < 2 ^ 31 := by
  have hlt := (a - b).toNat_lt
  rw [itimediff_eq]
  split <;> omega

theorem itimediff_neg_iff {a b : UInt32} : itimediff a b < 0 ↔ 2 ^ 31 ≤ (a - b).toNat := by
  have := @itimediff_nonneg_iff a b
  omega

/-- The place of `a` in a window that starts at `b`. -/
theorem itimediff_add_neg_iff {a b w : UInt32} (hd : (a - b).toNat < 2 ^ 31) (hw : w.toNat < 2 ^ 31) :
    itimediff a (b + w) < 0 ↔ (a - b).toNat < w.toNat := by
  have hsum := UInt32.toNat_add b w
  have hsub := UInt32.toNat_sub a (b + w)
  have hab := UInt32.toNat_sub a b
  have ha := a.toNat_lt
  have hb := b.toNat_lt
  rw [itimediff_neg_iff]
  omega

/-- Two numbers less than `2 ^ 31` on from a third are told apart by how far they are on. -/
theorem itimediff_eq_sub {a b c : UInt32} (ha : (a - c).toNat < 2 ^ 31) (hb : (b - c).toNat < 2 ^ 31) :
    itimediff a b = ((a - c).toNat : Int) - (b - c).toNat := by
  have hac := UInt32.toNat_sub a c
  have hbc := UInt32.toNat_sub b c
  have hab := UInt32.toNat_sub a b
  have hlt := a.toNat_lt
  have hlt' := b.toNat_lt
  have hlt'' := c.toNat_lt
  rw [itimediff_eq]
  split <;> omega

/-- Numbers that have not wrapped yet are told apart as they are. -/
theorem itimediff_of_lt {a b : UInt32} (ha : a.toNat < 2 ^ 31) (hb : b.toNat < 2 ^ 31) :
    itimediff a b = (a.toNat : Int) - b.toNat := by
  have h := @itimediff_eq_sub a b 0
  rw [UInt32.sub_zero, UInt32.sub_zero] at h
  exact h ha hb

/-- Distances from one number, taken from another before it. -/
theorem toNat_sub_rebase {a b c : UInt32} (h : (a - b).toNat ≤ (c - b).toNat) :
    (c - a).toNat = (c - b).toNat - (a - b).toNat := by
  have hca := UInt32.toNat_sub c a
  have hcb := UInt32.toNat_sub c b
  have hab := UInt32.toNat_sub a b
  have ha := a.toNat_lt
  have hb := b.toNat_lt
  have hc := c.toNat_lt
  omega

theorem toNat_sub_add_one {a b : UInt32} (h : (a - b).toNat < 2 ^ 32 - 1) :
    (a + 1 - b).toNat = (a - b).toNat + 1 := by
  have hab := UInt32.toNat_sub a b
  have hab' := UInt32.toNat_sub (a + 1) b
  have hadd := UInt32.toNat_add a 1
  have hone : (1 : UInt32).toNat = 1 := rfl
  have ha := a.toNat_lt
  have hb := b.toNat_lt
  omega

/-- Where the window has moved on past its first number. -/
theorem toNat_sub_succ {a b : UInt32} (h : 0 < (a - b).toNat) : (a - (b + 1)).toNat = (a - b).toNat - 1 := by
  have hab := UInt32.toNat_sub a b
  have hab' := UInt32.toNat_sub a (b + 1)
  have hadd := UInt32.toNat_add b 1
  have hone : (1 : UInt32).toNat = 1 := rfl
  have ha := a.toNat_lt
  have hb := b.toNat_lt
  omega

end EyPS
