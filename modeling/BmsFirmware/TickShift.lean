import BmsFirmware.Recovery

namespace BmsFirmware

open Config Lib.History Lib.Tick Lib.Recent

namespace FaultManager

attribute [local irreducible] evaluateHardFaults

def delay (d : ℕ) (c : FaultCall) : FaultCall := { c with timeMs := c.timeMs + d }

def output (fm : FaultManager) : BmsState × UInt16 × BmsAsil :=
  (fm.state, fm.activeFaults, fm.severity)

/-- The call is an OK evaluation in FAULT that finds the debounce timer at its
value for "not started". -/
def StartsDebounce (h : List FaultCall) (c : FaultCall) : Prop :=
  (after h).state = .fault ∧ (after h).lastOkTickMs = 0 ∧ IsOk c

theorem tick_add (t d : ℕ) : tick (t + d) = tick t + tick d := UInt32.ofNat_add t d

theorem add_sub_add (a b d : UInt32) : a + d - (b + d) = a - b := by grind

theorem Evaluated.unique {fm fm₁ fm₂ : FaultManager} {r : CellReading} {nowMs : UInt32}
    (h₁ : Evaluated fm r nowMs fm₁) (h₂ : Evaluated fm r nowMs fm₂) : fm₁ = fm₂ := by
  cases h₁ <;> cases h₂ <;> first | rfl | simp_all

/-- Two managers whose ticks differ by `d`, as long as they have any use for them. -/
structure Delayed (d : UInt32) (fm fm' : FaultManager) : Prop where
  state : fm'.state = fm.state
  activeFaults : fm'.activeFaults = fm.activeFaults
  severity : fm'.severity = fm.severity
  count : fm'.faultEntryCount = fm.faultEntryCount
  register : fm.state ≠ .shutdown → register fm' = (register fm).map (· + d)
  lastOk : fm.state ≠ .shutdown → fm.lastOkTickMs = 0 ∧ fm'.lastOkTickMs = 0 ∨
    fm.lastOkTickMs ≠ 0 ∧ fm'.lastOkTickMs ≠ 0 ∧ fm'.lastOkTickMs = fm.lastOkTickMs + d

theorem init_delayed (d : UInt32) : Delayed d init init where
  state := rfl
  activeFaults := rfl
  severity := rfl
  count := rfl
  register := fun _ ↦ rfl
  lastOk := fun _ ↦ .inl ⟨rfl, rfl⟩

theorem Delayed.output {d : UInt32} {fm fm' : FaultManager} (h : Delayed d fm fm') :
    output fm' = output fm := by
  simp only [FaultManager.output, h.state, h.activeFaults, h.severity]

theorem Delayed.not_started {d : UInt32} {fm fm' : FaultManager} (h : Delayed d fm fm')
    (hs : fm.state = .fault) (hl : fm.lastOkTickMs = 0) : fm'.lastOkTickMs = 0 := by
  rcases h.lastOk (by simp [hs]) with hz | ⟨hne, _⟩
  · exact hz.2
  · exact absurd hl hne

/-- A debounce timer that is running shows both sides the same elapsed time. -/
theorem Delayed.started {d : UInt32} {fm fm' : FaultManager} (h : Delayed d fm fm')
    (hs : fm.state = .fault) (hl : fm.lastOkTickMs ≠ 0) (nowMs : UInt32) :
    fm'.lastOkTickMs ≠ 0 ∧ nowMs + d - fm'.lastOkTickMs = nowMs - fm.lastOkTickMs := by
  rcases h.lastOk (by simp [hs]) with hz | ⟨_, hl', hsum⟩
  · exact absurd hz.1 hl
  · exact ⟨hl', by rw [hsum, add_sub_add]⟩

theorem latch_delayed {d nowMs : UInt32} {fm fm' : FaultManager}
    (hc : fm'.faultEntryCount = fm.faultEntryCount)
    (hr : register fm' = (register fm).map (· + d)) :
    latchShouldTrip fm' (nowMs + d) = latchShouldTrip fm nowMs := by
  unfold latchShouldTrip
  rw [hc]
  split_ifs with hlt
  · rfl
  · have hhead : (register fm').head? = some fm'.faultEntryTicksMs[0] := register_head (hc ▸ hlt)
    rw [hr, List.head?_map, register_head hlt, Option.map_some] at hhead
    rw [← Option.some.inj hhead, add_sub_add]

theorem recorded_delayed {d : UInt32} {fm fm' : FaultManager} (nowMs : UInt32)
    (hs : fm'.state = fm.state) (hc : fm'.faultEntryCount = fm.faultEntryCount)
    (h₀ : 0 ≤ fm.faultEntryCount) (h₁ : fm.faultEntryCount ≤ faultLatchCount)
    (hr : register fm' = (register fm).map (· + d)) :
    (recorded fm' (nowMs + d)).faultEntryCount = (recorded fm nowMs).faultEntryCount ∧
      register (recorded fm' (nowMs + d)) = (register (recorded fm nowMs)).map (· + d) := by
  refine ⟨by rw [recorded_count, recorded_count, hs, hc], ?_⟩
  unfold recorded
  rw [hs]
  split_ifs
  · exact hr
  · rw [register_recordFaultEntry fm' _ (hc ▸ h₀) (hc ▸ h₁), register_recordFaultEntry fm _ h₀ h₁,
      hr, push_map faultLatchCount (· + d)]

theorem Delayed.faulty {d nowMs : UInt32} {fm fm' : FaultManager} (h : Delayed d fm fm')
    (hi : Inv fm) (hs : fm.state ≠ .shutdown) (r : CellReading) :
    Delayed d { enterFault (faulted fm r) nowMs with lastOkTickMs := 0 }
      { enterFault (faulted fm' r) (nowMs + d) with lastOkTickMs := 0 } := by
  have hcalm : FaultManager.register (faulted fm' r) =
      (FaultManager.register (faulted fm r)).map (· + d) := h.register hs
  have hstate : (faulted fm' r).state = (faulted fm r).state := h.state
  obtain ⟨hcount, hreg⟩ :=
    recorded_delayed nowMs hstate h.count hi.count_nonneg hi.count_le hcalm
  have htrips : trips (faulted fm' r) (nowMs + d) = trips (faulted fm r) nowMs := by
    rw [trips, trips, latch_delayed hcount hreg]
    rfl
  constructor
  · simp only [enterFault_state, htrips]
  · simp only [enterFault_activeFaults, faulted]
  · simp only [enterFault_severity, faulted]
  · simp only [enterFault_count, hcount]
  · intro _
    simp only [enterFault_eq]
    exact hreg
  · exact fun _ ↦ .inl ⟨rfl, rfl⟩

/-- One evaluation at both ticks: the outputs agree in any case, the hidden
timers unless the debounce starts at tick 0 on one side only. -/
theorem Delayed.evaluate {d : UInt32} {fm fm' : FaultManager} (h : Delayed d fm fm')
    (hi : Inv fm) (hi' : Inv fm') (r : CellReading) (nowMs : UInt32) :
    FaultManager.output (fm'.evaluate r (nowMs + d)) = FaultManager.output (fm.evaluate r nowMs) ∧
    ((fm.state = .fault → fm.lastOkTickMs = 0 → (evaluateHardFaults r).1 = 0 →
      (nowMs = 0 ↔ nowMs + d = 0)) →
      Delayed d (fm.evaluate r nowMs) (fm'.evaluate r (nowMs + d))) := by
  have he := evaluate_evaluated fm r nowMs (fun hs ↦ (hi.watchdog hs).1)
  have he' := evaluate_evaluated fm' r (nowMs + d) (fun hs ↦ (hi'.watchdog hs).1)
  generalize fm.evaluate r nowMs = g at he ⊢
  generalize fm'.evaluate r (nowMs + d) = g' at he' ⊢
  have hboth (hD : Delayed d g g') (P : Prop) :
      FaultManager.output g' = FaultManager.output g ∧ (P → Delayed d g g') :=
    ⟨hD.output, fun _ ↦ hD⟩
  cases he with
  | latched hs =>
    obtain rfl := he'.unique (.latched (h.state.trans hs))
    exact hboth h _
  | faulty hs hf =>
    obtain rfl := he'.unique (.faulty (h.state ▸ hs) hf)
    exact hboth (h.faulty hi hs r) _
  | calm hs hf =>
    obtain rfl := he'.unique (.calm (h.state ▸ hs) hf)
    have hns : fm.state ≠ .shutdown := by rcases hs with hs | hs <;> simp [hs]
    exact hboth ⟨rfl, rfl, rfl, h.count, fun _ ↦ h.register hns, fun _ ↦ h.lastOk hns⟩ _
  | firstOk hs hf hl =>
    have hns : fm.state ≠ .shutdown := by simp [hs]
    obtain rfl := he'.unique (.firstOk (h.state.trans hs) hf (h.not_started hs hl))
    refine ⟨by simp only [FaultManager.output, h.state], fun hzero ↦ ?_⟩
    refine ⟨h.state, rfl, rfl, h.count, fun _ ↦ h.register hns, fun _ ↦ ?_⟩
    have hiff := hzero hs hl hf
    by_cases hn : nowMs = 0
    · exact .inl ⟨hn, hiff.mp hn⟩
    · exact .inr ⟨hn, fun hz ↦ hn (hiff.mpr hz), rfl⟩
  | recovered hs hf hl hd =>
    have hns : fm.state ≠ .shutdown := by simp [hs]
    obtain ⟨hl', hsame⟩ := h.started hs hl nowMs
    obtain rfl := he'.unique (.recovered (h.state.trans hs) hf hl' (hsame ▸ hd))
    exact hboth ⟨rfl, rfl, rfl, h.count, fun _ ↦ h.register hns, fun _ ↦ .inl ⟨rfl, rfl⟩⟩ _
  | waiting hs hf hl hd =>
    have hns : fm.state ≠ .shutdown := by simp [hs]
    obtain ⟨hl', hsame⟩ := h.started hs hl nowMs
    obtain rfl := he'.unique (.waiting (h.state.trans hs) hf hl' (hsame ▸ hd))
    exact hboth ⟨h.state, rfl, rfl, h.count, fun _ ↦ h.register hns, fun _ ↦ h.lastOk hns⟩ _

theorem Delayed.reportWatchdogFault {d : UInt32} {fm fm' : FaultManager}
    (h : Delayed d fm fm') (nowMs : UInt32) :
    Delayed d (fm.reportWatchdogFault nowMs) (fm'.reportWatchdogFault (nowMs + d)) := by
  by_cases hs : fm.state = .shutdown
  · rwa [FaultManager.reportWatchdogFault, FaultManager.reportWatchdogFault, h.state,
      if_pos hs, if_pos hs]
  · obtain ⟨g, hactive, hsev, hstate, hcount, he⟩ := reportWatchdogFault_eq fm nowMs hs
    obtain ⟨g', hactive', hsev', hstate', hcount', he'⟩ :=
      reportWatchdogFault_eq fm' (nowMs + d) (h.state ▸ hs)
    rw [he, he']
    constructor
    · rfl
    · simp only [recorded_activeFaults, hactive, hactive', h.activeFaults]
    · simp only [recorded_severity, hsev, hsev']
    · simp only [recorded_count, hstate, hstate', hcount, hcount', h.state, h.count]
    · exact fun hn ↦ absurd rfl hn
    · exact fun hn ↦ absurd rfl hn

variable (d : ℕ)

theorem delayed_call {h : List FaultCall} (c : FaultCall)
    (hD : Delayed (tick d) (after h) (after (h.map (delay d)))) :
    output (after ((c :: h).map (delay d))) = output (after (c :: h)) ∧
    ((StartsDebounce h c → (tick c.timeMs = 0 ↔ tick (c.timeMs + d) = 0)) →
      Delayed (tick d) (after (c :: h)) (after ((c :: h).map (delay d)))) := by
  obtain ⟨t, op⟩ := c
  rw [List.map_cons, after_cons, after_cons]
  cases op with
  | reportWatchdogFault =>
    have hD' := hD.reportWatchdogFault (tick t)
    rw [← tick_add] at hD'
    exact ⟨hD'.output, fun _ ↦ hD'⟩
  | evaluate r =>
    have hstep := hD.evaluate (after_inv h) (after_inv _) r (tick t)
    rw [← tick_add] at hstep
    exact ⟨hstep.1, fun hzero ↦ hstep.2 fun hs hl hf ↦ hzero ⟨hs, hl, hf⟩⟩

/-- No debounce period of the run starts at a tick that is 0 in exactly one of
the run and its delayed copy. -/
def SentinelFree (h : List FaultCall) : Prop :=
  ∀ c h₁, c :: h₁ <:+ h → StartsDebounce h₁ c → (tick c.timeMs = 0 ↔ tick (c.timeMs + d) = 0)

variable {d}

theorem SentinelFree.suffix {h h₁ : List FaultCall} (hf : SentinelFree d h) (hs : h₁ <:+ h) :
    SentinelFree d h₁ :=
  fun c h₂ hsuf ↦ hf c h₂ (hsuf.trans hs)

theorem after_delayed {h : List FaultCall} (hf : SentinelFree d h) :
    Delayed (tick d) (after h) (after (h.map (delay d))) := by
  induction h with
  | nil => exact init_delayed _
  | cons c h ih =>
    exact (delayed_call d c (ih (hf.suffix (List.suffix_cons c h)))).2 (hf c h List.suffix_rfl)

/-- An OK reading looks through to the timer: the manager recovers if the
debounce was started 300 ms before, and only waits if it was not. -/
theorem probe_started {h : List FaultCall} {t : ℕ} (hs : (after h).state = .fault)
    (hl : (after h).lastOkTickMs = tick t) (hz : tick t ≠ 0) :
    (after (⟨t + faultDebounceMs.toNat, .evaluate .nominal⟩ :: h)).state ≠ .fault := by
  have hok : (evaluateHardFaults .nominal).1 = 0 := by decide +kernel
  have hd : faultDebounceMs ≤ tick (t + faultDebounceMs.toNat) - (after h).lastOkTickMs := by
    rw [hl, UInt32.le_iff_toNat_le, tick_sub_of_near (Nat.le_add_right _ _)
      (by rw [Nat.add_sub_cancel_left]; decide), Nat.add_sub_cancel_left]
  rw [(after_evaluated h _ .nominal).unique (.recovered hs hok (hl ▸ hz) hd)]
  exact calmState_ne_fault .nominal

theorem probe_missed {h : List FaultCall} {t : ℕ} (hs : (after h).state = .fault)
    (hl : (after h).lastOkTickMs = 0) : (after (⟨t, .evaluate .nominal⟩ :: h)).state = .fault := by
  have hok : (evaluateHardFaults .nominal).1 = 0 := by decide +kernel
  rw [(after_evaluated h t .nominal).unique (.firstOk hs hok hl)]
  exact hs

def SameOutput (d : ℕ) (h : List FaultCall) : Prop :=
  output (after (h.map (delay d))) = output (after h)

theorem SameOutput.state {h : List FaultCall} (hsame : SameOutput d h) :
    (after (h.map (delay d))).state = (after h).state :=
  congrArg Prod.fst hsame

/-- Where the debounce starts at tick 0 on one side only, an OK reading one
debounce period later tells the two runs apart. -/
theorem probe_differs {h : List FaultCall} {c : FaultCall}
    (hD : Delayed (tick d) (after h) (after (h.map (delay d)))) (hst : StartsDebounce h c)
    (hsame : SameOutput d (⟨c.timeMs + faultDebounceMs.toNat, .evaluate .nominal⟩ :: c :: h)) :
    tick c.timeMs = 0 ↔ tick (c.timeMs + d) = 0 := by
  obtain ⟨hs, hl, hok⟩ := hst
  obtain ⟨t, op⟩ := c
  cases op with
  | reportWatchdogFault => exact hok.elim
  | evaluate r =>
    have he := (after_evaluated h t r).unique (.firstOk hs hok hl)
    have he' := (after_evaluated (h.map (delay d)) (t + d) r).unique
      (.firstOk (hD.state.trans hs) hok (hD.not_started hs hl))
    have hfault : (after (⟨t, .evaluate r⟩ :: h)).state = .fault := by rw [he]; exact hs
    have hfault' : (after (⟨t + d, .evaluate r⟩ :: h.map (delay d))).state = .fault := by
      rw [he']
      exact hD.state.trans hs
    have htick : (after (⟨t, .evaluate r⟩ :: h)).lastOkTickMs = tick t := by rw [he]
    have htick' : (after (⟨t + d, .evaluate r⟩ :: h.map (delay d))).lastOkTickMs =
        tick (t + d) := by rw [he']
    have hprobe := hsame.state
    rw [List.map_cons, List.map_cons, delay, delay, Nat.add_right_comm] at hprobe
    constructor
    · intro hz
      by_contra hz'
      exact probe_started hfault' htick' hz' (hprobe.trans (probe_missed hfault (htick.trans hz)))
    · intro hz'
      by_contra hz
      exact probe_started hfault htick hz
        (hprobe.symm.trans (probe_missed hfault' (htick'.trans hz')))

theorem sentinelFree_of_probes {h : List FaultCall} (ht : NonDecreasing h)
    (hsame : ∀ h₁, h₁ <:+ h → ∀ c, NonDecreasing (c :: h₁) → SameOutput d (c :: h₁)) :
    SentinelFree d h := by
  induction h with
  | nil => exact fun c h₁ hsuf ↦ nomatch List.suffix_nil.mp hsuf
  | cons c h ih =>
    have hf : SentinelFree d h := ih (ht.suffix (List.suffix_cons c h)) fun h₁ hsuf ↦
      hsame h₁ (hsuf.trans (List.suffix_cons c h))
    refine forall_moments_cons.mpr ⟨fun hst ↦ ?_, hf⟩
    refine probe_differs (after_delayed hf) hst (hsame _ List.suffix_rfl _ ?_)
    refine List.pairwise_cons.mpr ⟨List.forall_mem_cons.mpr ⟨Nat.le_add_right _ _, ?_⟩, ht⟩
    intro a ha
    exact (List.rel_of_pairwise_cons ht ha).trans (Nat.le_add_right _ _)

/-- Delaying a run by `d` changes no output, as long as no debounce period
starts at a tick that is 0 on one side only; and a run is safe in this way
exactly when no one more call tells it or a prefix of it from its delayed copy. -/
theorem delay_invisible_iff (d : ℕ) (h : List FaultCall) (ht : NonDecreasing h) :
    (SentinelFree d h → ∀ h₁, h₁ <:+ h → SameOutput d h₁) ∧
    ((∀ h₁, h₁ <:+ h → ∀ c, NonDecreasing (c :: h₁) → SameOutput d (c :: h₁)) ↔
      SentinelFree d h) := by
  refine ⟨fun hf h₁ hsuf ↦ (after_delayed (hf.suffix hsuf)).output, sentinelFree_of_probes ht, ?_⟩
  intro hf h₁ hsuf c _
  exact (delayed_call d c (after_delayed (hf.suffix hsuf))).1

def oneEpisode : List FaultCall :=
  [⟨450, .evaluate .nominal⟩, ⟨150, .evaluate .nominal⟩, ⟨100, .evaluate .low⟩]

theorem delay_invisible_iff_episode : SameOutput 1000 oneEpisode := by
  have hf : SentinelFree 1000 oneEpisode := by
    intro c h₁ hsuf _
    have hmem : c ∈ oneEpisode := hsuf.mem List.mem_cons_self
    have hticks : ∀ c ∈ oneEpisode, tick c.timeMs ≠ 0 ∧ tick (c.timeMs + 1000) ≠ 0 := by decide
    exact iff_of_false (hticks c hmem).1 (hticks c hmem).2
  exact (delay_invisible_iff 1000 oneEpisode (by decide)).1 hf oneEpisode List.suffix_rfl

/-- The delay puts the first OK evaluation on tick 0. -/
theorem delay_visible : NonDecreasing oneEpisode ∧ (after oneEpisode).state = .normal ∧
    (after (oneEpisode.map (delay (2 ^ 32 - 150)))).state = .fault :=
  ⟨by decide, by decide +kernel, by decide +kernel⟩

end FaultManager

end BmsFirmware
