import BmsFirmware.FaultRun

namespace BmsFirmware

open Config Lib.Tick Lib.Recent

namespace FaultManager

attribute [local irreducible] evaluateHardFaults

def Mild (c : FaultCall) : Prop :=
  match c.op with
  | .evaluate r => ¬ (Overvoltage r ∨ Overtemp r)
  | .reportWatchdogFault => False

instance (c : FaultCall) : Decidable (Mild c) :=
  match c with
  | ⟨_, .evaluate _⟩ => inferInstanceAs (Decidable (¬ _))
  | ⟨_, .reportWatchdogFault⟩ => inferInstanceAs (Decidable False)

def HasHardFault (c : FaultCall) : Prop :=
  match c.op with
  | .evaluate r => (evaluateHardFaults r).1 ≠ 0
  | .reportWatchdogFault => False

/-- The call `c` after `h` comes with three FAULT entries inside the window. -/
def Strikes (h : List FaultCall) (c : FaultCall) : Prop :=
  ∃ e, (entries (c :: h))[2]? = some e ∧ c.timeMs ≤ e + faultLatchWindowMs.toNat

/-- At a faulty evaluation the third entry is out of the window, but its age
has wrapped back into it. -/
def AgedStrikes (h : List FaultCall) (c : FaultCall) : Prop :=
  HasHardFault c ∧ ∃ e, (entries (c :: h))[2]? = some e ∧
    e + faultLatchWindowMs.toNat < c.timeMs ∧
    (c.timeMs - e) % 2 ^ 32 ≤ faultLatchWindowMs.toNat

theorem mild_shutdown_iff {h : List FaultCall} {c : FaultCall} (ht : NonDecreasing (c :: h))
    (hm : Mild c) (hs : (after h).state ≠ .shutdown) :
    (after (c :: h)).state = .shutdown ↔ HasHardFault c ∧ ∃ e, (entries (c :: h))[2]? = some e ∧
      (c.timeMs - e) % 2 ^ 32 ≤ faultLatchWindowMs.toNat := by
  obtain ⟨t, op⟩ := c
  cases op with
  | reportWatchdogFault => exact hm.elim
  | evaluate r =>
    rw [evaluate_shutdown_iff hs, or_iff_right hm]
    refine and_congr_right fun hf ↦ ?_
    exact latch_wrap_iff (recorded_count_le h t r)
      (recorded_register (after_inv h) (after_register hs) hs hf) ht.entries_le

theorem strikes_or_aged {h : List FaultCall} {c : FaultCall} (ht : NonDecreasing (c :: h))
    (hm : Mild c) (hs : (after h).state ≠ .shutdown) (hd : (after (c :: h)).state = .shutdown) :
    Strikes h c ↔ ¬ AgedStrikes h c := by
  obtain ⟨hf, e, he, hwrap⟩ := (mild_shutdown_iff ht hm hs).mp hd
  constructor
  · intro hstrikes haged
    obtain ⟨e₁, he₁, hle⟩ := hstrikes
    obtain ⟨_, e₂, he₂, hlt, _⟩ := haged
    obtain rfl := Option.some.inj (he₁.symm.trans he₂)
    omega
  · intro hno
    refine ⟨e, he, ?_⟩
    by_contra hle
    exact hno ⟨hf, e, he, by omega, hwrap⟩

theorem aged_shutdown {h : List FaultCall} {c : FaultCall} (ht : NonDecreasing (c :: h))
    (hm : Mild c) (hs : (after h).state ≠ .shutdown) (ha : AgedStrikes h c) :
    (after (c :: h)).state = .shutdown := by
  obtain ⟨hf, e, he, _, hwrap⟩ := ha
  exact (mild_shutdown_iff ht hm hs).mpr ⟨hf, e, he, hwrap⟩

theorem Timed.not_aged {h : List FaultCall} {c : FaultCall} (ht : Timed (c :: h)) :
    ¬ AgedStrikes h c := by
  intro haged
  obtain ⟨_, e, he, hlt, hwrap⟩ := haged
  have hspan := (entries_timed ht e (List.mem_of_getElem? he)).2
  rw [Nat.mod_eq_of_lt (by omega)] at hwrap
  omega

/-- Without severe faults the latch trips on three entries inside the window
and nothing else, exactly as long as no old entry is met at an age that wraps
into the window; in particular for the first 49 days. -/
theorem latch_window_iff (h : List FaultCall) (ht : NonDecreasing h) (hm : ∀ c ∈ h, Mild c) :
    ((∀ c h₁, c :: h₁ <:+ h → (after h₁).state ≠ .shutdown →
        (after (c :: h₁)).state = .shutdown → Strikes h₁ c) ↔
      ∀ c h₁, c :: h₁ <:+ h → (after h₁).state ≠ .shutdown → ¬ AgedStrikes h₁ c) ∧
    (Timed h → ∀ c h₁, c :: h₁ <:+ h → (after h₁).state ≠ .shutdown →
      (after (c :: h₁)).state = .shutdown → Strikes h₁ c) := by
  have hmild (c : FaultCall) (h₁ : List FaultCall) (hsuf : c :: h₁ <:+ h) : Mild c :=
    hm c (hsuf.mem List.mem_cons_self)
  refine ⟨⟨?_, ?_⟩, ?_⟩
  · intro hstrikes c h₁ hsuf hs haged
    have hd := aged_shutdown (ht.suffix hsuf) (hmild c h₁ hsuf) hs haged
    exact (strikes_or_aged (ht.suffix hsuf) (hmild c h₁ hsuf) hs hd).mp
      (hstrikes c h₁ hsuf hs hd) haged
  · intro hno c h₁ hsuf hs hd
    exact (strikes_or_aged (ht.suffix hsuf) (hmild c h₁ hsuf) hs hd).mpr (hno c h₁ hsuf hs)
  · intro htimed c h₁ hsuf hs hd
    exact (strikes_or_aged (ht.suffix hsuf) (hmild c h₁ hsuf) hs hd).mpr
      (htimed.suffix hsuf).not_aged

theorem latch_window_iff_three_strikes : Timed threeStrikes ∧
    ∀ c h₁, c :: h₁ <:+ threeStrikes → (after h₁).state ≠ .shutdown →
      (after (c :: h₁)).state = .shutdown → Strikes h₁ c := by
  have ht : Timed threeStrikes := by decide
  have hm : ∀ c ∈ threeStrikes, Mild c := by decide +kernel
  exact ⟨ht, (latch_window_iff threeStrikes ht.1 hm).2 ht⟩

def twoEpisodes : List FaultCall :=
  [⟨2350, .evaluate .nominal⟩, ⟨2050, .evaluate .nominal⟩, ⟨2000, .evaluate .low⟩,
    ⟨1350, .evaluate .nominal⟩, ⟨1050, .evaluate .nominal⟩, ⟨1000, .evaluate .low⟩]

def lateEpisode : FaultCall := ⟨2 ^ 32 + 1500, .evaluate .low⟩

theorem old_episodes_latch : NonDecreasing (lateEpisode :: twoEpisodes) ∧
    (∀ c ∈ lateEpisode :: twoEpisodes, Mild c) ∧ (after twoEpisodes).state = .normal ∧
    (after (lateEpisode :: twoEpisodes)).state = .shutdown ∧
    ¬ Strikes twoEpisodes lateEpisode := by
  refine ⟨by decide, by decide +kernel, by decide +kernel, by decide +kernel, ?_⟩
  have hentries : entries (lateEpisode :: twoEpisodes) = [2 ^ 32 + 1500, 2000, 1000] := by
    decide +kernel
  intro hstrikes
  obtain ⟨e, he, hle⟩ := hstrikes
  rw [hentries] at he
  obtain rfl : 1000 = e := Option.some.inj he
  exact absurd hle (by decide)

end FaultManager

end BmsFirmware
