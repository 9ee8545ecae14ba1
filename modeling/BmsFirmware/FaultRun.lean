import BmsFirmware.FaultInvariant
import BmsFirmware.Lib.History
import BmsFirmware.Lib.Recent

namespace BmsFirmware

open Config Lib.Tick Lib.Recent

namespace FaultManager

attribute [local irreducible] evaluateHardFaults

def IsEntry (fm : FaultManager) (c : FaultCall) : Prop :=
  match c.op with
  | .evaluate r => (evaluateHardFaults r).1 ≠ 0 ∧ (fm.state = .normal ∨ fm.state = .warning)
  | .reportWatchdogFault => False

instance (fm : FaultManager) (c : FaultCall) : Decidable (IsEntry fm c) :=
  match c with
  | ⟨_, .evaluate _⟩ => inferInstanceAs (Decidable (_ ∧ _))
  | ⟨_, .reportWatchdogFault⟩ => inferInstanceAs (Decidable False)

def entries : List FaultCall → List ℕ
  | [] => []
  | c :: h => if IsEntry (after h) c then c.timeMs :: entries h else entries h

def Severe (c : FaultCall) : Prop :=
  match c.op with
  | .evaluate r => Overvoltage r ∨ Overtemp r
  | .reportWatchdogFault => False

instance (c : FaultCall) : Decidable (Severe c) :=
  match c with
  | ⟨_, .evaluate _⟩ => inferInstanceAs (Decidable (_ ∨ _))
  | ⟨_, .reportWatchdogFault⟩ => inferInstanceAs (Decidable False)

def ThirdStrike (h : List FaultCall) (c : FaultCall) : Prop :=
  IsEntry (after h) c ∧
    ∃ t, (entries (c :: h))[2]? = some t ∧ c.timeMs ≤ t + faultLatchWindowMs.toNat

def Latches (h : List FaultCall) (c : FaultCall) : Prop :=
  c.op = .reportWatchdogFault ∨ Severe c ∨ ThirdStrike h c

/-- Real times never decrease and span less than the range of a tick. -/
def Timed (h : List FaultCall) : Prop :=
  h.Pairwise (fun a b ↦ b.timeMs ≤ a.timeMs) ∧ ∀ a ∈ h, ∀ b ∈ h, a.timeMs < b.timeMs + 2 ^ 32

instance (h : List FaultCall) : Decidable (Timed h) := inferInstanceAs (Decidable (_ ∧ _))

theorem Timed.tail {c : FaultCall} {h : List FaultCall} (ht : Timed (c :: h)) : Timed h :=
  ⟨ht.1.of_cons, fun a ha b hb ↦ ht.2 a (.tail c ha) b (.tail c hb)⟩

theorem Timed.suffix {h h₁ : List FaultCall} (ht : Timed h) (hs : h₁ <:+ h) : Timed h₁ :=
  ⟨ht.1.sublist hs.sublist, fun a ha b hb ↦ ht.2 a (hs.mem ha) b (hs.mem hb)⟩

def NonDecreasing (h : List FaultCall) : Prop := h.Pairwise fun a b ↦ b.timeMs ≤ a.timeMs

instance (h : List FaultCall) : Decidable (NonDecreasing h) :=
  inferInstanceAs (Decidable (List.Pairwise _ _))

theorem NonDecreasing.suffix {h h₁ : List FaultCall} (ht : NonDecreasing h) (hs : h₁ <:+ h) :
    NonDecreasing h₁ :=
  ht.sublist hs.sublist

def register (fm : FaultManager) : List UInt32 :=
  fm.faultEntryTicksMs.toList.take fm.faultEntryCount.toNat

theorem ticks_eq (v : Vector UInt32 faultLatchCount) : v = #v[v[0], v[1], v[2]] := by
  ext i hi
  match i, hi with
  | 0, _ => rfl
  | 1, _ => rfl
  | 2, _ => rfl

theorem register_recordFaultEntry (fm : FaultManager) (nowMs : UInt32)
    (h₀ : 0 ≤ fm.faultEntryCount) (h₁ : fm.faultEntryCount ≤ faultLatchCount) :
    register (recordFaultEntry fm nowMs) = push faultLatchCount (register fm) nowMs := by
  have hv := ticks_eq fm.faultEntryTicksMs
  generalize fm.faultEntryTicksMs[0] = a, fm.faultEntryTicksMs[1] = b,
    fm.faultEntryTicksMs[2] = c at hv
  have hc : fm.faultEntryCount = 0 ∨ fm.faultEntryCount = 1 ∨ fm.faultEntryCount = 2 ∨
      fm.faultEntryCount = 3 := by
    simp only [faultLatchCount] at h₁
    omega
  rcases hc with hc | hc | hc | hc
  · simp [register, recordFaultEntry, push, hc, hv, faultLatchCount]
  · simp [register, recordFaultEntry, push, hc, hv, faultLatchCount]
  · simp [register, recordFaultEntry, push, hc, hv, faultLatchCount]
  · have hfull : recordFaultEntry fm nowMs = { fm with faultEntryTicksMs := #v[b, c, nowMs] } := by
      unfold recordFaultEntry
      rw [if_neg (by simp [hc]), ticks_eq (Vector.ofFn _)]
      simp [hv, faultLatchCount]
    simp [hfull, register, push, hc, hv]

theorem register_length (fm : FaultManager) (h₁ : fm.faultEntryCount ≤ faultLatchCount) :
    (register fm).length = fm.faultEntryCount.toNat := by
  simp only [register, List.length_take, Vector.length_toList]
  omega

theorem register_head {fm : FaultManager} (hc : ¬ fm.faultEntryCount < faultLatchCount) :
    (register fm).head? = some fm.faultEntryTicksMs[0] := by
  have hv := ticks_eq fm.faultEntryTicksMs
  have hn : 0 < fm.faultEntryCount.toNat := by
    simp only [faultLatchCount] at hc
    omega
  rw [register, List.head?_take, if_neg (by omega), hv]
  rfl

theorem entries_mem {h : List FaultCall} {t : ℕ} (ht : t ∈ entries h) : ∃ c ∈ h, c.timeMs = t := by
  induction h with
  | nil => simp [entries] at ht
  | cons c h ih =>
    unfold entries at ht
    split_ifs at ht
    · rcases List.mem_cons.mp ht with rfl | ht
      · exact ⟨c, List.mem_cons_self, rfl⟩
      · obtain ⟨c', hc', he⟩ := ih ht
        exact ⟨c', List.mem_cons_of_mem c hc', he⟩
    · obtain ⟨c', hc', he⟩ := ih ht
      exact ⟨c', List.mem_cons_of_mem c hc', he⟩

/-- With its register filled from the history `es`, newest first, the unsigned
window test of the code looks at the age of the third entry modulo `2 ^ 32`. -/
theorem latch_wrap_iff {fm : FaultManager} {es : List ℕ} {t : ℕ}
    (h₁ : fm.faultEntryCount ≤ faultLatchCount)
    (hr : register fm = (recent faultLatchCount es).map tick) (hle : ∀ e ∈ es, e ≤ t) :
    latchShouldTrip fm (tick t) = true ↔
      ∃ e, es[2]? = some e ∧ (t - e) % 2 ^ 32 ≤ faultLatchWindowMs.toNat := by
  have hlen := register_length fm h₁
  rw [hr, List.length_map, recent_length] at hlen
  unfold latchShouldTrip
  split_ifs with hc
  · have hshort : es[2]? = none := by
      simp only [faultLatchCount] at *
      exact List.getElem?_eq_none (by omega)
    simp [hshort]
  · have hlong : 2 + 1 ≤ es.length := by
      simp only [faultLatchCount] at *
      omega
    have hhead := register_head hc
    rw [hr, List.head?_map, recent_head hlong, List.getElem?_eq_getElem (by omega),
      Option.map_some, Option.some_inj] at hhead
    have hd := tick_sub_of_le (hle _ (List.getElem_mem (show 2 < es.length by omega)))
    rw [← hhead, decide_eq_true_iff, UInt32.le_iff_toNat_le, hd,
      List.getElem?_eq_getElem (show 2 < es.length by omega)]
    simp only [Option.some_inj, exists_eq_left']

theorem latch_iff {fm : FaultManager} {es : List ℕ} {t : ℕ}
    (h₁ : fm.faultEntryCount ≤ faultLatchCount)
    (hr : register fm = (recent faultLatchCount es).map tick)
    (hle : ∀ e ∈ es, e ≤ t) (hspan : ∀ e ∈ es, t < e + 2 ^ 32) :
    latchShouldTrip fm (tick t) = true ↔
      ∃ e, es[2]? = some e ∧ t ≤ e + faultLatchWindowMs.toNat := by
  rw [latch_wrap_iff h₁ hr hle]
  refine exists_congr fun e ↦ and_congr_right fun he ↦ ?_
  have hmem := List.mem_of_getElem? he
  have := hle e hmem
  have := hspan e hmem
  rw [Nat.mod_eq_of_lt (by omega)]
  omega

/-- The run invariant outside SHUTDOWN: the register holds the last entries and
none of the entries so far was a third strike. -/
structure Tied (h : List FaultCall) : Prop where
  register_eq : register (after h) = (recent faultLatchCount (entries h)).map tick
  no_strike : ∀ t₀ t₂, (entries h)[0]? = some t₀ → (entries h)[2]? = some t₂ →
    t₂ + faultLatchWindowMs.toNat < t₀

theorem evaluate_quiet_entries {h : List FaultCall} {t : ℕ} {r : CellReading}
    (hf : (evaluateHardFaults r).1 = 0) : entries (⟨t, .evaluate r⟩ :: h) = entries h := by
  simp [entries, IsEntry, hf]

theorem shutdown_call (c : FaultCall) {fm : FaultManager} (hs : fm.state = .shutdown) :
    fm.call c = fm := by
  unfold call
  cases c.op with
  | evaluate r => simp [evaluate, hs]
  | reportWatchdogFault => simp [reportWatchdogFault, hs]

theorem shutdown_frozen {h : List FaultCall} (hs : (after h).state = .shutdown)
    (h₂ : List FaultCall) : after (h₂ ++ h) = after h := by
  induction h₂ with
  | nil => rfl
  | cons c h₂ ih =>
    rw [List.cons_append, after_cons, ih]
    exact shutdown_call c hs

def faulted (fm : FaultManager) (r : CellReading) : FaultManager :=
  { fm with
    activeFaults := (evaluateHardFaults r).1
    severity := getSeverity (evaluateHardFaults r).1 }

@[simp] theorem faulted_state (fm : FaultManager) (r : CellReading) :
    (faulted fm r).state = fm.state := rfl

@[simp] theorem faulted_count (fm : FaultManager) (r : CellReading) :
    (faulted fm r).faultEntryCount = fm.faultEntryCount := rfl

@[simp] theorem faulted_register (fm : FaultManager) (r : CellReading) :
    register (faulted fm r) = register fm := rfl

theorem recorded_register {h : List FaultCall} {t : ℕ} {r : CellReading} (hi : Inv (after h))
    (hr : register (after h) = (recent faultLatchCount (entries h)).map tick)
    (hs : (after h).state ≠ .shutdown) (hf : (evaluateHardFaults r).1 ≠ 0) :
    register (recorded (faulted (after h) r) (tick t)) =
      (recent faultLatchCount (entries (⟨t, .evaluate r⟩ :: h))).map tick := by
  by_cases hfault : (after h).state = .fault
  · have hsame : entries (⟨t, .evaluate r⟩ :: h) = entries h := by
      simp [entries, IsEntry, hfault]
    rw [recorded, faulted_state, if_pos hfault, hsame, faulted_register, hr]
  · have hentry : IsEntry (after h) ⟨t, .evaluate r⟩ := by
      refine ⟨hf, ?_⟩
      cases hst : (after h).state <;> simp_all
    have hnew : entries (⟨t, .evaluate r⟩ :: h) = t :: entries h := by
      rw [entries, if_pos hentry]
    have h₀ : 0 ≤ (faulted (after h) r).faultEntryCount := by simpa using hi.count_nonneg
    have h₁ : (faulted (after h) r).faultEntryCount ≤ faultLatchCount := by
      simpa using hi.count_le
    rw [recorded, faulted_state, if_neg hfault, hnew, register_recordFaultEntry _ _ h₀ h₁,
      faulted_register, hr, push_map, push_recent (by decide)]

theorem register_step {h : List FaultCall} {t : ℕ} {r : CellReading}
    (hs : (after h).state ≠ .shutdown)
    (hr : register (after h) = (recent faultLatchCount (entries h)).map tick) :
    register (after (⟨t, .evaluate r⟩ :: h)) =
      (recent faultLatchCount (entries (⟨t, .evaluate r⟩ :: h))).map tick := by
  have he := after_evaluated h t r
  generalize after (⟨t, .evaluate r⟩ :: h) = fm' at he ⊢
  cases he with
  | latched hs' => exact absurd hs' hs
  | faulty hs' hf =>
    have hreg : register (enterFault (faulted (after h) r) (tick t)) =
        register (recorded (faulted (after h) r) (tick t)) := by rw [enterFault_eq]; rfl
    rw [← recorded_register (after_inv h) hr hs hf]
    exact hreg
  | calm hs' hf => rw [evaluate_quiet_entries hf]; exact hr
  | firstOk hs' hf hl => rw [evaluate_quiet_entries hf]; exact hr
  | recovered hs' hf hl hd => rw [evaluate_quiet_entries hf]; exact hr
  | waiting hs' hf hl hd => rw [evaluate_quiet_entries hf]; exact hr

theorem before_shutdown {c : FaultCall} {h : List FaultCall}
    (hs : (after (c :: h)).state ≠ .shutdown) : (after h).state ≠ .shutdown := by
  intro hd
  rw [after_cons, shutdown_call c hd] at hs
  exact hs hd

theorem after_register {h : List FaultCall} (hs : (after h).state ≠ .shutdown) :
    register (after h) = (recent faultLatchCount (entries h)).map tick := by
  induction h with
  | nil => rfl
  | cons c h ih =>
    have hs' := before_shutdown hs
    obtain ⟨t, op⟩ := c
    cases op with
    | evaluate r => exact register_step hs' (ih hs')
    | reportWatchdogFault => exact absurd (reportWatchdogFault_state (after h) (tick t)) hs

/-- An evaluation outside SHUTDOWN trips it on a hard fault that is severe or
passes the window test. -/
theorem evaluate_shutdown_iff {h : List FaultCall} {t : ℕ} {r : CellReading}
    (hs : (after h).state ≠ .shutdown) : (after (⟨t, .evaluate r⟩ :: h)).state = .shutdown ↔
      (Overvoltage r ∨ Overtemp r) ∨ ((evaluateHardFaults r).1 ≠ 0 ∧
        latchShouldTrip (recorded (faulted (after h) r) (tick t)) (tick t) = true) := by
  have he := after_evaluated h t r
  have hquiet (hf : (evaluateHardFaults r).1 = 0) : ¬ ((Overvoltage r ∨ Overtemp r) ∨
      ((evaluateHardFaults r).1 ≠ 0 ∧
        latchShouldTrip (recorded (faulted (after h) r) (tick t)) (tick t) = true)) := by
    intro hor
    rcases hor with hsev | ⟨hne, _⟩
    · exact hard_faults_of_severe r hsev hf
    · exact hne hf
  generalize after (⟨t, .evaluate r⟩ :: h) = fm' at he ⊢
  cases he with
  | latched hs' => exact absurd hs' hs
  | faulty hs' hf =>
    have hsevere : BmsAsil.d.code ≤ (faulted (after h) r).severity.code ↔ _ :=
      severity_hard_faults r
    have hstate : (enterFault (faulted (after h) r) (tick t)).state = .shutdown ↔
        trips (faulted (after h) r) (tick t) = true := by
      rw [enterFault_state]
      split_ifs with htr <;> simp [htr]
    apply hstate.trans
    rw [trips, Bool.or_eq_true, decide_eq_true_iff, hsevere]
    simp [hf]
  | calm hs' hf =>
    exact iff_of_false (calmState_ne_shutdown r) (hquiet hf)
  | firstOk hs' hf hl => exact iff_of_false (by simp [hs']) (hquiet hf)
  | recovered hs' hf hl hd =>
    exact iff_of_false (calmState_ne_shutdown r) (hquiet hf)
  | waiting hs' hf hl hd => exact iff_of_false (by simp [hs']) (hquiet hf)

theorem NonDecreasing.entries_le {c : FaultCall} {h : List FaultCall}
    (ht : NonDecreasing (c :: h)) : ∀ e ∈ entries (c :: h), e ≤ c.timeMs := by
  intro e he
  obtain ⟨c', hc', rfl⟩ := entries_mem he
  rcases List.mem_cons.mp hc' with rfl | hc'
  · exact Nat.le_refl _
  · exact List.rel_of_pairwise_cons ht hc'

theorem entries_timed {c : FaultCall} {h : List FaultCall} (ht : Timed (c :: h)) :
    ∀ e ∈ entries (c :: h), e ≤ c.timeMs ∧ c.timeMs < e + 2 ^ 32 := by
  intro e he
  refine ⟨NonDecreasing.entries_le ht.1 e he, ?_⟩
  obtain ⟨c', hc', rfl⟩ := entries_mem he
  exact ht.2 c List.mem_cons_self c' hc'

theorem recorded_count_le (h : List FaultCall) (t : ℕ) (r : CellReading) :
    (recorded (faulted (after h) r) (tick t)).faultEntryCount ≤ faultLatchCount := by
  have hi := after_inv h
  exact (recorded_count_bounds (faulted (after h) r) (tick t) (by simpa using hi.count_nonneg)
    (by simpa using hi.count_le) (by simpa using fun hs ↦ (hi.fault hs).1)).2

theorem latch_after_fault {h : List FaultCall} {t : ℕ} {r : CellReading}
    (ht : Timed (⟨t, .evaluate r⟩ :: h)) (hT : Tied h) (hs : (after h).state ≠ .shutdown)
    (hf : (evaluateHardFaults r).1 ≠ 0) :
    latchShouldTrip (recorded (faulted (after h) r) (tick t)) (tick t) = true ↔
      ∃ e, (entries (⟨t, .evaluate r⟩ :: h))[2]? = some e ∧ t ≤ e + faultLatchWindowMs.toNat := by
  have htimes := entries_timed ht
  exact latch_iff (recorded_count_le h t r) (recorded_register (after_inv h) hT.register_eq hs hf)
    (fun e he ↦ (htimes e he).1) (fun e he ↦ (htimes e he).2)

/-- A later faulty cycle of an episode never trips the latch: the window test
already failed when the episode was entered, and time only adds to it. -/
theorem no_late_strike {h : List FaultCall} {t e : ℕ} {r : CellReading}
    (ht : Timed (⟨t, .evaluate r⟩ :: h)) (hT : Tied h)
    (hentry : ¬ IsEntry (after h) ⟨t, .evaluate r⟩)
    (he : (entries (⟨t, .evaluate r⟩ :: h))[2]? = some e) : e + faultLatchWindowMs.toNat < t := by
  have hsame : entries (⟨t, .evaluate r⟩ :: h) = entries h := by rw [entries, if_neg hentry]
  have htimes := entries_timed ht
  rw [hsame] at he htimes
  obtain ⟨hlen, -⟩ := List.getElem?_eq_some_iff.mp he
  have hlen₀ : 0 < (entries h).length := by omega
  have h₀ := hT.no_strike _ e (List.getElem?_eq_getElem hlen₀) he
  exact h₀.trans_le (htimes _ (List.getElem_mem hlen₀)).1

theorem evaluate_step {h : List FaultCall} {t : ℕ} {r : CellReading}
    (ht : Timed (⟨t, .evaluate r⟩ :: h)) (hT : Tied h) (hs : (after h).state ≠ .shutdown) :
    ((after (⟨t, .evaluate r⟩ :: h)).state = .shutdown ↔ Latches h ⟨t, .evaluate r⟩) ∧
    ((after (⟨t, .evaluate r⟩ :: h)).state ≠ .shutdown → Tied (⟨t, .evaluate r⟩ :: h)) := by
  have hstate : (after (⟨t, .evaluate r⟩ :: h)).state = .shutdown ↔
      Latches h ⟨t, .evaluate r⟩ := by
    have hop : ¬ (FaultOp.evaluate r = .reportWatchdogFault) := by simp
    rw [evaluate_shutdown_iff hs, Latches, or_iff_right hop]
    refine or_congr_right ⟨?_, ?_⟩
    · intro htrip
      obtain ⟨hf, hlatch⟩ := htrip
      obtain ⟨e, he, hle⟩ := (latch_after_fault ht hT hs hf).mp hlatch
      refine ⟨?_, e, he, hle⟩
      by_contra hentry
      have := no_late_strike ht hT hentry he
      omega
    · intro hstrike
      obtain ⟨hentry, hold⟩ := hstrike
      exact ⟨hentry.1, (latch_after_fault ht hT hs hentry.1).mpr hold⟩
  refine ⟨hstate, fun hn ↦ ⟨register_step hs hT.register_eq, ?_⟩⟩
  intro t₀ t₂ h₀ h₂
  by_cases hentry : IsEntry (after h) ⟨t, .evaluate r⟩
  · have hnew : entries (⟨t, .evaluate r⟩ :: h) = t :: entries h := by rw [entries, if_pos hentry]
    have ht₀ : t = t₀ := by simpa [hnew] using h₀
    by_contra hle
    exact hn (hstate.mpr (.inr (.inr ⟨hentry, t₂, h₂, by simp only [ht₀]; omega⟩)))
  · rw [entries, if_neg hentry] at h₀ h₂
    exact hT.no_strike t₀ t₂ h₀ h₂

theorem run_step {c : FaultCall} {h : List FaultCall} (ht : Timed (c :: h)) (hT : Tied h)
    (hs : (after h).state ≠ .shutdown) :
    ((after (c :: h)).state = .shutdown ↔ Latches h c) ∧
    ((after (c :: h)).state ≠ .shutdown → Tied (c :: h)) := by
  obtain ⟨t, op⟩ := c
  cases op with
  | evaluate r => exact evaluate_step ht hT hs
  | reportWatchdogFault =>
    obtain ⟨g, -, -, -, -, he⟩ := reportWatchdogFault_eq (after h) (tick t) hs
    have hafter : after (⟨t, .reportWatchdogFault⟩ :: h) =
        reportWatchdogFault (after h) (tick t) := rfl
    rw [hafter, he]
    exact ⟨⟨fun _ ↦ .inl rfl, fun _ ↦ rfl⟩, fun hn ↦ absurd rfl hn⟩

theorem after_tied {h : List FaultCall} (ht : Timed h) (hs : (after h).state ≠ .shutdown) :
    Tied h := by
  induction h with
  | nil => exact ⟨rfl, by simp [entries]⟩
  | cons c h ih =>
    have hs' := before_shutdown hs
    exact (run_step ht (ih ht.tail hs') hs').2 hs

theorem latches_shutdown {c : FaultCall} {h : List FaultCall} (ht : Timed (c :: h))
    (hl : Latches h c) : (after (c :: h)).state = .shutdown := by
  by_cases hs : (after h).state = .shutdown
  · rw [after_cons, shutdown_call c hs, hs]
  · exact (run_step ht (after_tied ht.tail hs) hs).1.mpr hl

theorem shutdown_latches {h : List FaultCall} (ht : Timed h) (hs : (after h).state = .shutdown) :
    ∃ c h₁, c :: h₁ <:+ h ∧ Latches h₁ c := by
  induction h with
  | nil => cases hs
  | cons c h ih =>
    by_cases hs' : (after h).state = .shutdown
    · obtain ⟨c', h₁, hsuf, hl⟩ := ih ht.tail hs'
      exact ⟨c', h₁, hsuf.trans (List.suffix_cons c h), hl⟩
    · exact ⟨c, h, List.suffix_rfl, (run_step ht (after_tied ht.tail hs') hs').1.mp hs⟩

/-- SHUTDOWN is reached exactly by the calls that its specification names, and
the first such call fixes every field for good. -/
theorem shutdown_iff (h : List FaultCall) (ht : Timed h) :
    ((after h).state = .shutdown ↔ ∃ c h₁, c :: h₁ <:+ h ∧ Latches h₁ c) ∧
    ∀ c h₁, c :: h₁ <:+ h → Latches h₁ c → ∀ h₂, after (h₂ ++ c :: h₁) = after (c :: h₁) := by
  refine ⟨⟨shutdown_latches ht, ?_⟩, fun c h₁ hsuf hl h₂ ↦ ?_⟩
  · intro hcall
    obtain ⟨c, h₁, hsuf, hl⟩ := hcall
    have hs := latches_shutdown (ht.suffix hsuf) hl
    obtain ⟨h₂, rfl⟩ := hsuf
    rw [shutdown_frozen hs h₂]
    exact hs
  · exact shutdown_frozen (latches_shutdown (ht.suffix hsuf) hl) h₂

def threeStrikes : List FaultCall :=
  let ok := CellReading.nominal
  let low := { ok with cellMv := #v[2950, 3700, 3700, 3700, 3700] }
  [⟨1000, .evaluate low⟩, ⟨970, .evaluate ok⟩, ⟨660, .evaluate ok⟩, ⟨650, .evaluate low⟩,
    ⟨620, .evaluate ok⟩, ⟨310, .evaluate ok⟩, ⟨10, .evaluate low⟩]

theorem shutdown_iff_three_strikes : Timed threeStrikes ∧ ((after threeStrikes).state = .shutdown ↔
    ∃ c h₁, c :: h₁ <:+ threeStrikes ∧ Latches h₁ c) :=
  ⟨by decide, (shutdown_iff threeStrikes (by decide)).1⟩

example : (after threeStrikes).state = .shutdown ∧ entries threeStrikes = [1000, 650, 10] := by
  decide +kernel

end FaultManager

end BmsFirmware
