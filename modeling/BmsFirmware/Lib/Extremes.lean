import Mathlib.Algebra.GroupWithZero.Nat
import Mathlib.Data.Finset.Lattice.Fold
import Mathlib.Data.Fintype.Basic
import Mathlib.Order.Nat

namespace BmsFirmware.Lib.Extremes

variable {ι σ β : Type} [LinearOrder β]

/-- A loop that keeps a running maximum has found the largest value so far. -/
theorem le_foldl_max (m : σ → β) (f : ι → β) {step : σ → ι → σ}
    (hstep : ∀ s i, m (step s i) = max (m s) (f i)) (l : List ι) (s : σ) (b : β) :
    b ≤ m (l.foldl step s) ↔ b ≤ m s ∨ ∃ i ∈ l, b ≤ f i := by
  induction l generalizing s with
  | nil => simp
  | cons i l ih =>
    rw [List.foldl_cons, ih, hstep, le_max_iff]
    simp [or_assoc]

theorem foldl_min_le (m : σ → β) (f : ι → β) {step : σ → ι → σ}
    (hstep : ∀ s i, m (step s i) = min (m s) (f i)) (l : List ι) (s : σ) (b : β) :
    m (l.foldl step s) ≤ b ↔ m s ≤ b ∨ ∃ i ∈ l, f i ≤ b := by
  induction l generalizing s with
  | nil => simp
  | cons i l ih =>
    rw [List.foldl_cons, ih, hstep, min_le_iff]
    simp [or_assoc]

section

variable {n : ℕ} [NeZero n] (f g : Fin n → β)

def greatest : β := Finset.univ.sup' Finset.univ_nonempty f

def least : β := Finset.univ.inf' Finset.univ_nonempty f

variable {f g}

theorem le_greatest_iff {b : β} : b ≤ greatest f ↔ ∃ i, b ≤ f i := by
  simp [greatest, Finset.le_sup'_iff]

theorem least_le_iff {b : β} : least f ≤ b ↔ ∃ i, f i ≤ b := by
  simp [least, Finset.inf'_le_iff]

theorem le_greatest (i : Fin n) : f i ≤ greatest f := le_greatest_iff.mpr ⟨i, le_rfl⟩

theorem least_le (i : Fin n) : least f ≤ f i := least_le_iff.mpr ⟨i, le_rfl⟩

theorem least_le_greatest : least f ≤ greatest f := (least_le 0).trans (le_greatest 0)

/-- The seed of the loop is one of the values. -/
theorem foldl_max_eq_greatest (m : σ → β) {step : σ → Fin n → σ}
    (hstep : ∀ s i, m (step s i) = max (m s) (f i)) {s : σ} {i₀ : Fin n} (hs : m s = f i₀) :
    m ((List.finRange n).foldl step s) = greatest f := by
  refine eq_of_forall_le_iff fun b ↦ ?_
  rw [le_foldl_max m f hstep, le_greatest_iff, hs]
  constructor
  · rintro (h | ⟨i, _, h⟩)
    · exact ⟨i₀, h⟩
    · exact ⟨i, h⟩
  · rintro ⟨i, h⟩
    exact .inr ⟨i, List.mem_finRange i, h⟩

theorem foldl_min_eq_least (m : σ → β) {step : σ → Fin n → σ}
    (hstep : ∀ s i, m (step s i) = min (m s) (f i)) {s : σ} {i₀ : Fin n} (hs : m s = f i₀) :
    m ((List.finRange n).foldl step s) = least f := by
  refine eq_of_forall_ge_iff fun b ↦ ?_
  rw [foldl_min_le m f hstep, least_le_iff, hs]
  constructor
  · rintro (h | ⟨i, _, h⟩)
    · exact ⟨i₀, h⟩
    · exact ⟨i, h⟩
  · rintro ⟨i, h⟩
    exact .inr ⟨i, List.mem_finRange i, h⟩

theorem greatest_comp (e : Equiv.Perm (Fin n)) : greatest (f ∘ e) = greatest f := by
  refine eq_of_forall_le_iff fun b ↦ ?_
  rw [le_greatest_iff, le_greatest_iff]
  exact e.exists_congr_left.trans (by simp)

theorem least_comp (e : Equiv.Perm (Fin n)) : least (f ∘ e) = least f := by
  refine eq_of_forall_ge_iff fun b ↦ ?_
  rw [least_le_iff, least_le_iff]
  exact e.exists_congr_left.trans (by simp)

end

end BmsFirmware.Lib.Extremes
