import BmsFirmware.Lib.Tick
import Mathlib.Algebra.Order.Group.Abs
import Mathlib.Algebra.Order.Ring.Int

namespace BmsFirmware

open Lib.Tick

structure Timespec where
  tvSec : ℤ
  tvNsec : ℤ
  nsec_nonneg : 0 ≤ tvNsec
  nsec_lt : tvNsec < 1000000000

namespace Timespec

def toNs (t : Timespec) : ℤ := t.tvSec * 1000000000 + t.tvNsec

end Timespec

section Clock

variable (start now : Timespec)

/-- The `int64_t` sum of `osal_get_tick_ms`, with C's truncating division. -/
def msSince : ℤ :=
  let secDiff := now.tvSec - start.tvSec
  let nsecDiff := now.tvNsec - start.tvNsec
  secDiff * 1000 + nsecDiff.tdiv 1000000

def osalGetTickMs : UInt32 := .ofNat (msSince start now % 2 ^ 32).toNat

end Clock

/-- Truncation rounds towards zero, whichever side of zero the difference is on. -/
theorem tdiv_million (a : ℤ) : 0 ≤ a ∧ a.tdiv 1000000 = a / 1000000 ∨
    a < 0 ∧ a.tdiv 1000000 = -(-a / 1000000) := by
  rcases lt_or_ge a 0 with ha | ha
  · right
    refine ⟨ha, ?_⟩
    have hneg : (-a).tdiv 1000000 = -a / 1000000 := Int.tdiv_eq_ediv_of_nonneg (by omega)
    rw [← hneg, Int.neg_tdiv, neg_neg]
  · exact .inl ⟨ha, Int.tdiv_eq_ediv_of_nonneg ha⟩

variable {start now later : Timespec}

theorem msSince_near : msSince start now * 1000000 < now.toNs - start.toNs + 1000000 ∧
    now.toNs - start.toNs < msSince start now * 1000000 + 1000000 := by
  have hd := tdiv_million (now.tvNsec - start.tvNsec)
  simp only [msSince, Timespec.toNs]
  generalize (now.tvNsec - start.tvNsec).tdiv 1000000 = q at hd ⊢
  omega

theorem msSince_nonneg (h : start.toNs ≤ now.toNs) : 0 ≤ msSince start now := by
  have hnear := (@msSince_near start now).2
  omega

/-- Within a second the truncated difference follows the nanoseconds; across a second it
loses less than the 1000 ms that the seconds add. -/
theorem msSince_mono (h : now.toNs ≤ later.toNs) : msSince start now ≤ msSince start later := by
  have hd := tdiv_million (now.tvNsec - start.tvNsec)
  have hd' := tdiv_million (later.tvNsec - start.tvNsec)
  have hs := start.nsec_nonneg
  have hs' := start.nsec_lt
  have hn := now.nsec_nonneg
  have hn' := now.nsec_lt
  have hl := later.nsec_nonneg
  have hl' := later.nsec_lt
  simp only [msSince, Timespec.toNs] at h ⊢
  generalize (now.tvNsec - start.tvNsec).tdiv 1000000 = q at hd ⊢
  generalize (later.tvNsec - start.tvNsec).tdiv 1000000 = q' at hd' ⊢
  rcases lt_or_ge now.tvSec later.tvSec with hlt | hge
  · omega
  · have heq : now.tvSec = later.tvSec := by omega
    omega

theorem osalGetTickMs_eq (h : start.toNs ≤ now.toNs) :
    osalGetTickMs start now = tick (msSince start now).toNat := by
  have hms := msSince_nonneg h
  refine UInt32.toNat_inj.mp ?_
  rw [osalGetTickMs, UInt32.toNat_ofNat', tick_toNat]
  omega

/-- For times of up to `2 ^ 53` seconds the 64-bit arithmetic is exact. -/
theorem msSince_int64 (hsec : |now.tvSec - start.tvSec| < 2 ^ 53) :
    |(now.tvSec - start.tvSec) * 1000| < 2 ^ 63 ∧ |msSince start now| < 2 ^ 63 := by
  have hd := tdiv_million (now.tvNsec - start.tvNsec)
  have hs := start.nsec_nonneg
  have hs' := start.nsec_lt
  have hn := now.nsec_nonneg
  have hn' := now.nsec_lt
  simp only [msSince]
  generalize (now.tvNsec - start.tvNsec).tdiv 1000000 = q at hd ⊢
  rw [abs_lt] at hsec ⊢
  rw [abs_lt]
  omega

/-- The host tick is a faithful millisecond clock: along any sequence of readings it
neither goes below zero nor back, and it is less than a millisecond off. -/
theorem clock_faithful (start : Timespec) (readings : List Timespec)
    (hstart : ∀ now ∈ readings, start.toNs ≤ now.toNs)
    (hmono : readings.Pairwise fun now later ↦ now.toNs ≤ later.toNs) :
    (∀ now ∈ readings, 0 ≤ msSince start now) ∧
    (readings.map (msSince start)).Pairwise (· ≤ ·) ∧
    (∀ now ∈ readings, |msSince start now * 1000000 - (now.toNs - start.toNs)| < 1000000) ∧
    ∀ now ∈ readings, osalGetTickMs start now = tick (msSince start now).toNat := by
  refine ⟨fun now hmem ↦ msSince_nonneg (hstart now hmem),
    List.pairwise_map.mpr (hmono.imp fun h ↦ msSince_mono h), fun now _ ↦ ?_,
    fun now hmem ↦ osalGetTickMs_eq (hstart now hmem)⟩
  obtain ⟨habove, hbelow⟩ := @msSince_near start now
  rw [abs_lt]
  omega

def startTime : Timespec := ⟨7, 900000000, by decide, by decide⟩

def nextSecond : Timespec := ⟨8, 1, by decide, by decide⟩

theorem clock_faithful_next_second : msSince startTime nextSecond = 101 ∧
    ∀ now ∈ [startTime, nextSecond], 0 ≤ msSince startTime now :=
  ⟨by decide, (clock_faithful startTime [startTime, nextSecond] (by decide) (by decide)).1⟩

end BmsFirmware
