import Mathlib.Algebra.Order.Field.Basic
import Mathlib.Algebra.Order.Group.MinMax
import Mathlib.Order.Interval.Set.UnorderedInterval
import Mathlib.Tactic.Linarith
import Mathlib.Tactic.Ring

namespace BmsFirmware.Lib

open Set

section Clamp

variable {α : Type} [LinearOrder α] {lo hi a x z : α}

def clamp (lo hi x : α) : α := max lo (min hi x)

theorem clamp_mem (h : lo ≤ hi) : clamp lo hi x ∈ Icc lo hi :=
  ⟨le_max_left _ _, max_le h (min_le_left _ _)⟩

theorem clamp_of_mem (h : x ∈ Icc lo hi) : clamp lo hi x = x := by
  rw [clamp, min_eq_right h.2, max_eq_right h.1]

theorem clamp_mono : Monotone (clamp lo hi) := fun _ _ h ↦
  max_le_max le_rfl (min_le_min le_rfl h)

theorem clamp_mem_uIcc (hz : z ∈ Icc lo hi) (hx : x ∈ uIcc a z) :
    clamp lo hi x ∈ uIcc (clamp lo hi a) z := by
  have hmaps : clamp lo hi x ∈ uIcc (clamp lo hi a) (clamp lo hi z) := clamp_mono.mapsTo_uIcc hx
  rwa [clamp_of_mem hz] at hmaps

end Clamp

section Blend

variable {K : Type} [Field K] {g a b : K}

def blend (g a b : K) : K := a + g * (b - a)

theorem blend_self : blend g a a = a := by
  rw [blend, sub_self, mul_zero, add_zero]

theorem blend_sub : blend g a b - b = (1 - g) * (a - b) := by
  rw [blend]
  ring

end Blend

variable {K : Type} [Field K] [LinearOrder K] [IsStrictOrderedRing K]
  {g a b b' lo hi x z : K}

theorem abs_clamp_sub_le (hz : z ∈ Icc lo hi) : |clamp lo hi x - z| ≤ |x - z| := by
  have hmax := abs_max_sub_max_le_abs (min hi x) (min hi z) lo
  have hmin := abs_min_sub_min_le_max hi x hi z
  rw [sub_self, abs_zero, max_eq_right (abs_nonneg _)] at hmin
  rw [max_comm _ lo, max_comm _ lo] at hmax
  have hle := hmax.trans hmin
  rwa [show max lo (min hi z) = z from clamp_of_mem hz] at hle

theorem blend_mono (hg : 0 ≤ g) (h : b ≤ b') : blend g a b ≤ blend g a b' :=
  add_le_add_right (mul_le_mul_of_nonneg_left (sub_le_sub_right h a) hg) a

theorem blend_mem_uIcc (h₀ : 0 ≤ g) (h₁ : g ≤ 1) : blend g a b ∈ uIcc a b := by
  have hrest := sub_nonneg.mpr h₁
  unfold blend
  rcases le_total a b with hab | hba
  · rw [uIcc_of_le hab]
    have hnear := mul_nonneg h₀ (sub_nonneg.mpr hab)
    have hfar := mul_nonneg hrest (sub_nonneg.mpr hab)
    constructor <;> linarith
  · rw [uIcc_of_ge hba]
    have hnear := mul_nonneg h₀ (sub_nonneg.mpr hba)
    have hfar := mul_nonneg hrest (sub_nonneg.mpr hba)
    constructor <;> linarith

/-- A fraction strictly between 0 and 1 brings the first point strictly nearer. -/
theorem abs_blend_sub_lt (h₀ : 0 < g) (h₁ : g < 1) (hab : a ≠ b) :
    |blend g a b - b| < |a - b| := by
  have hpos := abs_pos.mpr (sub_ne_zero.mpr hab)
  rw [blend_sub, abs_mul, abs_of_pos (sub_pos.mpr h₁)]
  exact mul_lt_of_lt_one_left hpos (by linarith)

end BmsFirmware.Lib
