import BmsFirmware.FaultRun

namespace BmsFirmware

open Config Lib.History Lib.Tick

namespace FaultManager

attribute [local irreducible] evaluateHardFaults

def IsOk (c : FaultCall) : Prop :=
  match c.op with
  | .evaluate r => (evaluateHardFaults r).1 = 0
  | .reportWatchdogFault => False

def Calm (fm : FaultManager) : Prop := fm.state = .normal ∨ fm.state = .warning

def Recovers (h : List FaultCall) (c : FaultCall) : Prop :=
  (after h).state = .fault ∧ Calm (after (c :: h))

def Enters (h : List FaultCall) (c : FaultCall) : Prop :=
  Calm (after h) ∧ ((after (c :: h)).state = .fault ∨ (after (c :: h)).state = .shutdown)

theorem not_calm_fault {fm : FaultManager} (hs : fm.state = .fault) : ¬ Calm fm := by
  simp [Calm, hs]

theorem not_calm_shutdown {fm : FaultManager} (hs : fm.state = .shutdown) : ¬ Calm fm := by
  simp [Calm, hs]

theorem calm_or (fm : FaultManager) : Calm fm ∨ fm.state = .fault ∨ fm.state = .shutdown := by
  unfold Calm
  cases fm.state <;> simp

theorem recovers_ok {h : List FaultCall} {c : FaultCall} (hr : Recovers h c) : IsOk c := by
  obtain ⟨hs, hcalm⟩ := hr
  obtain ⟨t, op⟩ := c
  cases op with
  | reportWatchdogFault =>
    exact absurd hcalm (not_calm_shutdown (reportWatchdogFault_state (after h) (tick t)))
  | evaluate r =>
    have he := after_evaluated h t r
    generalize after (⟨t, .evaluate r⟩ :: h) = fm' at he hcalm
    cases he with
    | latched hs' => exact absurd hcalm (not_calm_shutdown hs')
    | faulty hs' hf =>
      simp only [Calm, enterFault_state] at hcalm
      split_ifs at hcalm <;> simp at hcalm
    | calm hs' hf => exact hf
    | firstOk hs' hf hl => exact hf
    | recovered hs' hf hl hd => exact hf
    | waiting hs' hf hl hd => exact hf

theorem IsOk.not_enters {h : List FaultCall} {c : FaultCall} (hok : IsOk c) : ¬ Enters h c := by
  intro hent
  obtain ⟨hcalm, hout⟩ := hent
  obtain ⟨t, op⟩ := c
  cases op with
  | reportWatchdogFault => exact hok
  | evaluate r =>
    have he := after_evaluated h t r
    generalize after (⟨t, .evaluate r⟩ :: h) = fm' at he hout
    cases he with
    | latched hs => exact not_calm_shutdown hs hcalm
    | faulty hs hf => exact hf hok
    | calm hs hf => exact hout.elim (calmState_ne_fault r) (calmState_ne_shutdown r)
    | firstOk hs hf hl => exact not_calm_fault hs hcalm
    | recovered hs hf hl hd => exact not_calm_fault hs hcalm
    | waiting hs hf hl hd => exact not_calm_fault hs hcalm

theorem enters_before {h₂ h₁ h' : List FaultCall} {c : FaultCall} (hok : ∀ c ∈ h₂, IsOk c)
    (hs : c :: h' <:+ h₂ ++ h₁) (hent : Enters h' c) : c :: h' <:+ h₁ := by
  induction h₂ with
  | nil => exact hs
  | cons c₂ h₂ ih =>
    rcases cons_suffix_cons_iff.mp hs with ⟨rfl, rfl⟩ | htail
    · exact absurd hent (hok c List.mem_cons_self).not_enters
    · exact ih (fun c' hc' ↦ hok c' (List.mem_cons_of_mem c₂ hc')) htail

/-- The debounce timer against the history: it holds the tick of an evaluation
from which on everything was OK. -/
def Debouncing (h : List FaultCall) : Prop :=
  ∃ h₂ c₀ h₀, h = h₂ ++ c₀ :: h₀ ∧ (∀ c ∈ h₂ ++ [c₀], IsOk c) ∧ (after h₀).state = .fault ∧
    tick c₀.timeMs = (after h).lastOkTickMs

theorem Debouncing.cons {h : List FaultCall} {c : FaultCall} (hd : Debouncing h) (hok : IsOk c)
    (hl : (after (c :: h)).lastOkTickMs = (after h).lastOkTickMs) : Debouncing (c :: h) := by
  obtain ⟨h₂, c₀, h₀, rfl, hall, hs, htick⟩ := hd
  refine ⟨c :: h₂, c₀, h₀, rfl, ?_, hs, htick.trans hl.symm⟩
  rw [List.cons_append]
  exact List.forall_mem_cons.mpr ⟨hok, hall⟩

theorem debouncing {h : List FaultCall} (hs : (after h).state = .fault)
    (hl : (after h).lastOkTickMs ≠ 0) : Debouncing h := by
  induction h with
  | nil => cases hs
  | cons c h ih =>
    obtain ⟨t, op⟩ := c
    cases op with
    | reportWatchdogFault =>
      have hdown := reportWatchdogFault_state (after h) (tick t)
      exact nomatch hdown.symm.trans hs
    | evaluate r =>
      have he := after_evaluated h t r
      generalize hfm : after (⟨t, .evaluate r⟩ :: h) = fm' at he hs hl
      cases he with
      | latched hs' => exact nomatch hs'.symm.trans hs
      | faulty hs' hf => exact absurd rfl hl
      | calm hs' hf => exact absurd hs (calmState_ne_fault r)
      | recovered hs' hf hl' hd => exact absurd rfl hl
      | firstOk hs' hf hl' =>
        exact ⟨[], ⟨t, .evaluate r⟩, h, rfl, List.forall_mem_singleton.mpr hf, hs', by rw [hfm]⟩
      | waiting hs' hf hl' hd => exact (ih hs' hl').cons hf (by rw [hfm])

/-- The condition that a recovery by the call `c` after `h` has to meet: the evaluations
from some `c₀` on were OK, `c₀` is old enough, and no FAULT entry came after it. -/
def Debounced (h : List FaultCall) (c : FaultCall) : Prop :=
  ∃ h₂ c₀ h₀, h = h₂ ++ c₀ :: h₀ ∧ (∀ c' ∈ c :: (h₂ ++ [c₀]), IsOk c') ∧
    c₀.timeMs + faultDebounceMs.toNat ≤ c.timeMs ∧
    (∃ c₁ h₁, c₁ :: h₁ <:+ h₀ ∧ Enters h₁ c₁) ∧
    ∀ c₁ h₁, c₁ :: h₁ <:+ h → Enters h₁ c₁ → c₁ :: h₁ <:+ h₀

theorem fault_entered {h : List FaultCall} (hs : (after h).state = .fault) :
    ∃ c₁ h₁, c₁ :: h₁ <:+ h ∧ Enters h₁ c₁ := by
  induction h with
  | nil => cases hs
  | cons c h ih =>
    rcases calm_or (after h) with hcalm | hfault | hdown
    · exact ⟨c, h, List.suffix_rfl, hcalm, .inl hs⟩
    · obtain ⟨c₁, h₁, hsuf, hent⟩ := ih hfault
      exact ⟨c₁, h₁, hsuf.trans (List.suffix_cons c h), hent⟩
    · rw [after_cons, shutdown_call c hdown, hdown] at hs
      cases hs

theorem debounce_elapsed {t t₀ : ℕ} (hle : t₀ ≤ t)
    (hd : faultDebounceMs ≤ tick t - tick t₀) : t₀ + faultDebounceMs.toNat ≤ t := by
  have hmod := Nat.mod_le (t - t₀) (2 ^ 32)
  rw [UInt32.le_iff_toNat_le, tick_sub_of_le hle] at hd
  omega

theorem recovers_debounced {h : List FaultCall} {c : FaultCall} (ht : NonDecreasing (c :: h))
    (hr : Recovers h c) : Debounced h c := by
  have hok := recovers_ok hr
  obtain ⟨hs, hcalm⟩ := hr
  obtain ⟨t, op⟩ := c
  cases op with
  | reportWatchdogFault => exact hok.elim
  | evaluate r =>
    have he := after_evaluated h t r
    generalize after (⟨t, .evaluate r⟩ :: h) = fm' at he hcalm
    cases he with
    | latched hs' => exact nomatch hs'.symm.trans hs
    | faulty hs' hf => exact absurd hok hf
    | calm hs' hf => exact absurd hs' (not_calm_fault hs)
    | firstOk hs' hf hl => exact absurd hcalm (not_calm_fault hs')
    | waiting hs' hf hl hd => exact absurd hcalm (not_calm_fault hs')
    | recovered hs' hf hl hd =>
      obtain ⟨h₂, c₀, h₀, rfl, hall, hs₀, htick⟩ := debouncing hs hl
      have hle : c₀.timeMs ≤ t := List.rel_of_pairwise_cons ht (by simp)
      rw [← htick] at hd
      refine ⟨h₂, c₀, h₀, rfl, List.forall_mem_cons.mpr ⟨hok, hall⟩, debounce_elapsed hle hd,
        fault_entered hs₀, ?_⟩
      intro c₁ h₁ hsuf hent
      rw [List.append_cons] at hsuf
      exact enters_before hall hsuf hent

theorem recovered_between {g h : List FaultCall} (hsuf : g <:+ h)
    (hs : (after g).state = .fault) (hcalm : Calm (after h)) :
    ∃ c h₁, c :: h₁ <:+ h ∧ g <:+ h₁ ∧ Recovers h₁ c := by
  obtain ⟨l, rfl⟩ := hsuf
  induction l with
  | nil => exact absurd hcalm (not_calm_fault hs)
  | cons c l ih =>
    rcases calm_or (after (l ++ g)) with hcalm' | hfault | hdown
    · obtain ⟨c₁, h₁, hsuf, hg, hr⟩ := ih hcalm'
      exact ⟨c₁, h₁, hsuf.trans (List.suffix_cons c _), hg, hr⟩
    · exact ⟨c, l ++ g, List.suffix_rfl, List.suffix_append l g, hfault, hcalm⟩
    · rw [List.cons_append, after_cons, shutdown_call c hdown] at hcalm
      exact absurd hcalm (not_calm_shutdown hdown)

theorem entries_apart {h h₁ h₂ : List FaultCall} {c c' : FaultCall} (ht : NonDecreasing h)
    (hsuf : c :: h₁ <:+ h) (hsuf' : c' :: h₂ <:+ h₁) (hent : Enters h₁ c) (hent' : Enters h₂ c') :
    c'.timeMs + faultDebounceMs.toNat ≤ c.timeMs := by
  have hs : (after (c' :: h₂)).state = .fault := by
    rcases hent'.2 with hfault | hdown
    · exact hfault
    · obtain ⟨l, rfl⟩ := hsuf'
      exact absurd hent.1 (not_calm_shutdown (by rw [shutdown_frozen hdown, hdown]))
  obtain ⟨c₃, h₃, hsuf₃, hg, hr⟩ := recovered_between hsuf' hs hent.1
  have ht₁ := ht.suffix hsuf
  have ht₃ := ht₁.suffix (hsuf₃.trans (List.suffix_cons c h₁))
  obtain ⟨h₄, c₀, h₀, rfl, _, hold, _, hlast⟩ := recovers_debounced ht₃ hr
  have hle₀ : c'.timeMs ≤ c₀.timeMs := by
    have htail := ht₃.suffix (List.suffix_append (c₃ :: h₄) (c₀ :: h₀))
    exact List.rel_of_pairwise_cons htail ((hlast c' h₂ hg hent').mem List.mem_cons_self)
  have hle₃ : c₃.timeMs ≤ c.timeMs :=
    List.rel_of_pairwise_cons ht₁ (hsuf₃.mem List.mem_cons_self)
  omega

/-- Every recovery out of FAULT comes at the end of a debounce period of OK
evaluations, however the ticks wrapped on the way, so FAULT entries are at
least that far apart. -/
theorem recovery_debounced (h : List FaultCall) (ht : NonDecreasing h) :
    (∀ c h₁, c :: h₁ <:+ h → Recovers h₁ c → Debounced h₁ c) ∧
    ∀ c h₁ c' h₂, c :: h₁ <:+ h → c' :: h₂ <:+ h₁ → Enters h₁ c → Enters h₂ c' →
      c'.timeMs + faultDebounceMs.toNat ≤ c.timeMs :=
  ⟨fun _ _ hsuf hr ↦ recovers_debounced (ht.suffix hsuf) hr,
    fun _ _ _ _ hsuf hsuf' hent hent' ↦ entries_apart ht hsuf hsuf' hent hent'⟩

def wrappedEpisode : List FaultCall :=
  [⟨2 ^ 32 + 10, .evaluate .nominal⟩, ⟨2 ^ 32 - 20, .evaluate .low⟩]

def wrappedRecovery : FaultCall := ⟨2 ^ 32 + 310, .evaluate .nominal⟩

theorem recovery_debounced_wrapped :
    Recovers wrappedEpisode wrappedRecovery ∧ Debounced wrappedEpisode wrappedRecovery := by
  have ht : NonDecreasing (wrappedRecovery :: wrappedEpisode) := by decide
  have hr : Recovers wrappedEpisode wrappedRecovery := by
    unfold Recovers Calm
    decide +kernel
  exact ⟨hr, (recovery_debounced _ ht).1 _ _ List.suffix_rfl hr⟩

end FaultManager

end BmsFirmware
