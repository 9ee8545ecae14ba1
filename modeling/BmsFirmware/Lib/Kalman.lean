import BmsFirmware.Lib.Covariance
import Mathlib.LinearAlgebra.Matrix.Determinant.Basic
import Mathlib.LinearAlgebra.Matrix.NonsingularInverse
import Mathlib.LinearAlgebra.Matrix.Notation

namespace BmsFirmware.Lib

open Matrix

variable {K : Type} [Field K]

namespace Kalman

variable {n m : Type} [Fintype n] [Fintype m] [DecidableEq m]

def predictCov (F Q P : Matrix n n K) : Matrix n n K := F * P * Fᵀ + Q

variable (H : Matrix m n K) (R : Matrix m m K) (P : Matrix n n K)

def innovation : Matrix m m K := H * P * Hᵀ + R

noncomputable def gain : Matrix n m K := P * Hᵀ * (innovation H R P)⁻¹

def correctState (G : Matrix n m K) (x : n → K) (z : m → K) : n → K := x + G *ᵥ (z - H *ᵥ x)

variable {H R P}

theorem gain_mul_innovation (hS : IsUnit (innovation H R P).det) :
    gain H R P * innovation H R P = P * Hᵀ :=
  nonsing_inv_mul_cancel_right _ _ hS

theorem eq_gain (hS : IsUnit (innovation H R P).det) {G : Matrix n m K}
    (hG : G * innovation H R P = P * Hᵀ) : G = gain H R P := by
  rw [gain, ← hG, mul_nonsing_inv_cancel_right _ _ hS]

variable [DecidableEq n]

/-- The covariance after the measurement, in Joseph's form, which holds for every gain `G`. -/
def josephCov (H : Matrix m n K) (R : Matrix m m K) (P : Matrix n n K) (G : Matrix n m K) :
    Matrix n n K := (1 - G * H) * P * (1 - G * H)ᵀ + G * R * Gᵀ

/-- For the optimal gain Joseph's form is the short one. -/
theorem josephCov_gain (hS : IsUnit (innovation H R P).det) :
    josephCov H R P (gain H R P) = (1 - gain H R P * H) * P := by
  have hgain := gain_mul_innovation hS
  rw [innovation, Matrix.mul_add, ← Matrix.mul_assoc, ← Matrix.mul_assoc] at hgain
  set G := gain H R P
  have hrest : (1 - G * H) * P * Hᵀ = G * R := by
    rw [Matrix.sub_mul, Matrix.sub_mul, Matrix.one_mul, ← hgain]
    exact add_sub_cancel_left _ _
  calc josephCov H R P G
      = (1 - G * H) * P - (1 - G * H) * P * Hᵀ * Gᵀ + G * R * Gᵀ := by
        rw [josephCov, transpose_sub, transpose_one, transpose_mul, Matrix.mul_sub,
          Matrix.mul_one, Matrix.mul_assoc _ Hᵀ Gᵀ]
    _ = (1 - G * H) * P := by rw [hrest, sub_add_cancel]

end Kalman

namespace Cov

open Kalman

def toMatrix (P : Cov K) : Matrix (Fin 2) (Fin 2) K := !![P.p00, P.p01; P.p01, P.p11]

def dynamics (k : K) : Matrix (Fin 2) (Fin 2) K := !![1, -k; 0, 1]

def observe : Matrix (Fin 1) (Fin 2) K := !![1, 0]

theorem dynamics_transpose (k : K) : (dynamics k)ᵀ = !![1, 0; -k, 1] := by
  ext i j
  fin_cases i <;> fin_cases j <;> rfl

theorem observe_transpose : (observe : Matrix (Fin 1) (Fin 2) K)ᵀ = !![1; 0] := by
  ext i j
  fin_cases i <;> fin_cases j <;> rfl

theorem predict_toMatrix (P : Cov K) (k q₀ q₁ : K) : (P.predict k q₀ q₁).toMatrix =
    predictCov (dynamics k) !![q₀, 0; 0, q₁] P.toMatrix := by
  rw [predictCov, dynamics_transpose, dynamics, toMatrix, toMatrix, mul_fin_two, mul_fin_two]
  ext i j
  fin_cases i <;> fin_cases j <;> simp [predict] <;> ring

theorem innovation_toMatrix (P : Cov K) (r : K) :
    innovation observe !![r] P.toMatrix = !![P.p00 + r] := by
  rw [innovation, observe_transpose]
  ext i j
  fin_cases i
  fin_cases j
  simp [observe, toMatrix]

theorem innovation_isUnit (P : Cov K) {r : K} (hs : P.p00 + r ≠ 0) :
    IsUnit (innovation observe !![r] P.toMatrix).det := by
  rw [innovation_toMatrix, det_fin_one_of]
  exact hs.isUnit

theorem gain_toMatrix (P : Cov K) {r : K} (hs : P.p00 + r ≠ 0) :
    gain observe !![r] P.toMatrix = !![P.p00 / (P.p00 + r); P.p01 / (P.p00 + r)] := by
  refine (eq_gain (P.innovation_isUnit hs) ?_).symm
  rw [innovation_toMatrix, observe_transpose]
  ext i j
  fin_cases i <;> fin_cases j <;> simp [toMatrix, div_mul_cancel₀ _ hs]

theorem correct_toMatrix (P : Cov K) {r : K} (hs : P.p00 + r ≠ 0) : (P.correct r).toMatrix =
    josephCov observe !![r] P.toMatrix (gain observe !![r] P.toMatrix) := by
  have hsym : P.p00 / (P.p00 + r) * P.p01 = P.p01 / (P.p00 + r) * P.p00 := by ring
  rw [josephCov_gain (P.innovation_isUnit hs), gain_toMatrix P hs]
  ext i j
  fin_cases i <;> fin_cases j <;> simp [correct, observe, toMatrix, sub_mul, hsym]

theorem correctState_observe (g₀ g₁ x₀ x₁ z : K) :
    correctState observe !![g₀; g₁] ![x₀, x₁] ![z] =
      ![x₀ + g₀ * (z - x₀), x₁ + g₁ * (z - x₀)] := by
  have hobserve : observe *ᵥ ![x₀, x₁] = ![x₀] := by
    ext i
    fin_cases i
    simp [observe, mulVec, dotProduct]
  rw [correctState, hobserve]
  ext i
  fin_cases i <;> simp [mul_comm]

end Cov

end BmsFirmware.Lib
