import BmsFirmware.Lib.Registration
import BmsFirmware.SocketCan
import BmsFirmware.VirtualBus

namespace BmsFirmware

open Config Lib.History Lib.Registration

def pendingSubscribe {κ : Type} : List (HalFrame κ) → Option (Option κ)
  | .subscribe sub :: _ => some sub
  | _ => none

def BusEvent.registration {τ κ : Type} : BusEvent τ κ → Option (τ × TableAction (Option κ))
  | ⟨t, .subscribe sub⟩ => some (t, .test sub)
  | ⟨t, .insert⟩ => some (t, .insert)
  | _ => none

namespace VirtualBus

variable {τ κ : Type}

def table (s : VirtualBus τ κ) : Table τ (Option κ) maxSubscribers where
  entries := s.subs
  count := s.subCount
  waiting := fun t ↦ pendingSubscribe (s.stack t)

def registrations (h : List (BusEvent τ κ)) : List (τ × TableAction (Option κ)) :=
  h.filterMap BusEvent.registration

def SubscribesOnTop (s : VirtualBus τ κ) : Prop := ∀ t sub, .subscribe sub ∉ (s.stack t).tail

theorem mayCall_pending {st : List (HalFrame κ)} (h : mayCall st = true) :
    pendingSubscribe st = none := by
  match st with
  | [] => rfl
  | .send c :: st => rfl
  | .subscribe sub :: st => cases h

theorem mayCall_not_mem {st : List (HalFrame κ)} (h : mayCall st = true) {sub : Option κ}
    (htail : .subscribe sub ∉ st.tail) : .subscribe sub ∉ st := by
  match st with
  | [] => exact List.not_mem_nil
  | .send c :: st => exact List.not_mem_cons_of_ne_of_not_mem (by simp) htail
  | .subscribe sub :: st => cases h

theorem SubscribesOnTop.returned {s : VirtualBus τ κ} (h : SubscribesOnTop s) {t : τ}
    {f : HalFrame κ} {st : List (HalFrame κ)} (hst : s.stack t = f :: st) :
    pendingSubscribe st = none := by
  match st with
  | [] => rfl
  | .send c :: st => rfl
  | .subscribe sub :: st =>
    have htail := h t sub
    rw [hst] at htail
    exact absurd List.mem_cons_self htail

variable [DecidableEq τ]

theorem SubscribesOnTop.update {s s' : VirtualBus τ κ} (h : SubscribesOnTop s) {t : τ}
    {st : List (HalFrame κ)} (hs : s'.stack = Function.update s.stack t st)
    (hst : ∀ sub, .subscribe sub ∉ st.tail) : SubscribesOnTop s' := by
  intro u sub
  rw [hs]
  by_cases hut : u = t
  · subst hut
    rw [Function.update_self]
    exact hst sub
  · rw [Function.update_of_ne hut]
    exact h u sub

/-- A step of a thread changes the waiting calls in its own place only. -/
theorem table_update {s s' : VirtualBus τ κ} {t : τ} {st : List (HalFrame κ)}
    (hs : s'.stack = Function.update s.stack t st) : s'.table =
      { entries := s'.subs
        count := s'.subCount
        waiting := Function.update s.table.waiting t (pendingSubscribe st) } := by
  have hwaiting : pendingSubscribe ∘ s'.stack =
      Function.update (pendingSubscribe ∘ s.stack) t (pendingSubscribe st) := by
    rw [hs, Function.comp_update]
  exact congrArg (Table.mk s'.subs s'.subCount) hwaiting

theorem table_same {s s' : VirtualBus τ κ} {t : τ} {st : List (HalFrame κ)}
    (hs : s'.stack = Function.update s.stack t st) (hsubs : s'.subs = s.subs)
    (hcount : s'.subCount = s.subCount)
    (hst : pendingSubscribe st = pendingSubscribe (s.stack t)) : s'.table = s.table := by
  have hwaiting : Function.update s.table.waiting t (pendingSubscribe st) = s.table.waiting := by
    rw [Function.update_eq_self_iff, hst]
    rfl
  rw [table_update hs, hwaiting, hsubs, hcount]
  rfl

theorem subscribe_mayCall {s s' : VirtualBus τ κ} {t : τ} {sub : Option κ}
    (h : s.step ⟨t, .subscribe sub⟩ = some s') : mayCall (s.stack t) = true := by
  simp only [step, Option.ite_none_right_eq_some] at h
  exact h.1

theorem send_mayCall {s s' : VirtualBus τ κ} {t : τ} {frame : Option CanFrame}
    (h : s.step ⟨t, .send frame⟩ = some s') : mayCall (s.stack t) = true := by
  simp only [step, Option.ite_none_right_eq_some] at h
  exact h.1

theorem SubscribesOnTop.step {s s' : VirtualBus τ κ} {t : τ} {a : BusAction κ}
    (h : SubscribesOnTop s) (he : s.step ⟨t, a⟩ = some s') : SubscribesOnTop s' := by
  have htop (f : HalFrame κ) (st : List (HalFrame κ)) (hst : s.stack t = f :: st)
      (sub : Option κ) : .subscribe sub ∉ st := by
    have htail := h t sub
    rwa [hst] at htail
  cases step_stepped he with
  | full sub hc => exact h
  | rejected frame hf => exact h
  | subscribe sub hc =>
    exact h.update rfl fun sub' ↦ mayCall_not_mem (subscribe_mayCall he) (h t sub')
  | send frame hf => exact h.update rfl fun sub ↦ mayCall_not_mem (send_mayCall he) (h t sub)
  | insert sub st hst =>
    exact h.update rfl fun sub' hmem ↦ htop _ st hst sub' (List.mem_of_mem_tail hmem)
  | skip c st hst hcb hs => exact h.update rfl fun sub ↦ htop _ st hst sub
  | callback c st hst hcb hs => exact h.update rfl fun sub ↦ htop _ st hst sub
  | callbackReturn c st hst hcb => exact h.update rfl fun sub ↦ htop _ st hst sub
  | sendReturn c st hst hcb hn =>
    exact h.update rfl fun sub hmem ↦ htop _ st hst sub (List.mem_of_mem_tail hmem)

theorem run_subscribesOnTop {h : List (BusEvent τ κ)} {s : VirtualBus τ κ}
    (hr : Run step canHalInit h s) : SubscribesOnTop s :=
  hr.invariant (fun _ _ ↦ List.not_mem_nil) fun _ _ _ hs he ↦ hs.step he

theorem insert_step {s : VirtualBus τ κ} {t : τ} {s₁ : Table τ (Option κ) maxSubscribers}
    (he : s.table.step (t, .insert) = some s₁) : ∃ s', s.step ⟨t, .insert⟩ = some s' := by
  cases Table.step_stepped he with
  | insert _ hw =>
    match hst : s.stack t with
    | [] => simp [table, hst, pendingSubscribe] at hw
    | .send c :: st => simp [table, hst, pendingSubscribe] at hw
    | .subscribe sub :: st => exact ⟨s.insert t sub st, by simp only [step, hst]⟩

theorem step_table_stays {s s' : VirtualBus τ κ} {e : BusEvent τ κ} (htop : SubscribesOnTop s)
    (he : s.step e = some s') (hf : e.registration = none) : s'.table = s.table := by
  obtain ⟨t, a⟩ := e
  have hsame {st st' : List (HalFrame κ)} {c : SendCall κ} (hst : s.stack t = .send c :: st')
      (hst' : pendingSubscribe st = none) : pendingSubscribe st = pendingSubscribe (s.stack t) := by
    rw [hst, hst']
    rfl
  cases step_stepped he with
  | full sub hc => cases hf
  | subscribe sub hc => cases hf
  | insert sub st hst => cases hf
  | rejected frame hr => rfl
  | send frame hr => exact table_same rfl rfl rfl (mayCall_pending (send_mayCall he)).symm
  | skip c st hst hcb hs => exact table_same rfl rfl rfl (hsame hst rfl)
  | callback c st hst hcb hs => exact table_same rfl rfl rfl (hsame hst rfl)
  | callbackReturn c st hst hcb => exact table_same rfl rfl rfl (hsame hst rfl)
  | sendReturn c st hst hcb hn => exact table_same rfl rfl rfl (hsame hst (htop.returned hst))

theorem step_table_moves {s s' : VirtualBus τ κ} {e : BusEvent τ κ} {d : τ × TableAction (Option κ)}
    (htop : SubscribesOnTop s) (he : s.step e = some s') (hf : e.registration = some d) :
    s.table.step d = some s'.table := by
  obtain ⟨t, a⟩ := e
  cases step_stepped he with
  | full sub hc =>
    obtain rfl := Option.some.inj hf
    have hw : s.table.waiting t = none := mayCall_pending (subscribe_mayCall he)
    simp only [Table.step, hw]
    exact if_pos hc
  | subscribe sub hc =>
    obtain rfl := Option.some.inj hf
    have hw : s.table.waiting t = none := mayCall_pending (subscribe_mayCall he)
    have htable : (s.setStack t (.subscribe sub :: s.stack t)).table =
        { entries := s.subs
          count := s.subCount
          waiting := Function.update s.table.waiting t
            (pendingSubscribe (.subscribe sub :: s.stack t)) } :=
      table_update rfl
    simp only [Table.step, hw]
    rw [if_neg (show ¬ maxSubscribers ≤ s.table.count from hc.not_ge), htable]
    rfl
  | insert sub st hst =>
    obtain rfl := Option.some.inj hf
    have hw : s.table.waiting t = some sub := congrArg pendingSubscribe hst
    have htable : (s.insert t sub st).table =
        { entries := s.subs.setIfInBounds s.subCount sub
          count := s.subCount + 1
          waiting := Function.update s.table.waiting t (pendingSubscribe st) } :=
      table_update rfl
    simp only [Table.step, hw]
    rw [htable, htop.returned hst]
    rfl
  | rejected frame hr => cases hf
  | send frame hr => cases hf
  | skip c st hst hcb hs => cases hf
  | callback c st hst hcb hs => cases hf
  | callbackReturn c st hst hcb => cases hf
  | sendReturn c st hst hcb hn => cases hf

theorem backend : Backend (step : VirtualBus τ κ → _ → _) canHalInit table BusEvent.registration
    (fun t ↦ ⟨t, .insert⟩) none where
  table_init := rfl
  stays _ _ _ _ hr he hf := step_table_stays (run_subscribesOnTop hr) he hf
  moves _ _ _ _ _ hr he hf := step_table_moves (run_subscribesOnTop hr) he hf
  event_insert _ := rfl
  inserts _ _ _ _ _ he := insert_step he

end VirtualBus

namespace SocketCan

variable {τ κ : Type}

def insert (s : SocketCan κ) (sub : Option κ) : Except MutexFault (ℤ × SocketCan κ) := do
  osalMutexLock s.subLock
  let s' := { s with
    subs := s.subs.setIfInBounds s.subCount sub
    subCount := s.subCount + 1 }
  osalMutexUnlock s'.subLock
  return (0, s')

theorem canHalSubscribe_eq (s : SocketCan κ) (sub : Option κ) : canHalSubscribe s sub =
    if s.subCount ≥ maxSubscribers then .ok (-1, s) else s.insert sub := rfl

/-- The backend with the calls of `can_hal_subscribe` that threads have in progress
between the capacity test and the lock. -/
structure Shared (τ κ : Type) where
  hal : SocketCan κ
  waiting : τ → Option (Option κ)

inductive SharedAction (κ : Type)
  | subscribe (sub : Option κ)
  | insert
  | receive

def SharedAction.registration : τ × SharedAction κ → Option (τ × TableAction (Option κ))
  | (t, .subscribe sub) => some (t, .test sub)
  | (t, .insert) => some (t, .insert)
  | (_, .receive) => none

namespace Shared

def registrations (h : List (τ × SharedAction κ)) : List (τ × TableAction (Option κ)) :=
  h.filterMap SharedAction.registration

def start (o : InitOutcome) : Shared τ κ where
  hal := (canHalInit SocketCan.start o).2
  waiting := fun _ ↦ none

def table (s : Shared τ κ) : Table τ (Option κ) maxSubscribers where
  entries := s.hal.subs
  count := s.hal.subCount
  waiting := s.waiting

theorem start_table {o : InitOutcome} (ho : o.succeeds = true) :
    (start o : Shared τ κ).table = Table.init none := by
  simp only [InitOutcome.succeeds, Bool.and_eq_true, decide_eq_true_iff] at ho
  simp only [start, table, canHalInit]
  rw [if_neg (by omega), if_neg (by omega), if_neg (by omega)]
  rfl

variable [DecidableEq τ]

def step (s : Shared τ κ) (e : τ × SharedAction κ) : Option (Shared τ κ) :=
  match e.2, s.waiting e.1 with
  | .subscribe sub, none =>
    if s.hal.subCount ≥ maxSubscribers then some s
    else some { s with waiting := Function.update s.waiting e.1 (some sub) }
  | .insert, some sub =>
    match s.hal.insert sub with
    | .ok (_, hal) => some { hal := hal, waiting := Function.update s.waiting e.1 none }
    | .error _ => none
  | .receive, none =>
    match rxSnapshot s.hal with
    | .ok _ => some s
    | .error _ => none
  | _, _ => none

theorem insert_live {s : SocketCan κ} (h : s.subLock = .live) (sub : Option κ) :
    s.insert sub = .ok (0, { s with
      subs := s.subs.setIfInBounds s.subCount sub
      subCount := s.subCount + 1 }) := by
  rw [SocketCan.insert, h]
  rfl

theorem insert_null {s : SocketCan κ} (h : s.subLock = .null) (sub : Option κ) :
    s.insert sub = .error .lockNull := by
  rw [SocketCan.insert, h]
  rfl

theorem step_registration {s : Shared τ κ} (hlock : s.hal.subLock = .live) {e : τ × SharedAction κ}
    {d : τ × TableAction (Option κ)} (hf : SharedAction.registration e = some d) :
    (s.step e).map table = s.table.step d := by
  obtain ⟨t, a⟩ := e
  cases a with
  | receive => cases hf
  | subscribe sub =>
    obtain rfl := Option.some.inj hf
    have hw : s.table.waiting t = s.waiting t := rfl
    cases hwt : s.waiting t with
    | some x => simp only [step, Table.step, hw, hwt, Option.map_none]
    | none =>
      simp only [step, Table.step, hw, hwt]
      by_cases hc : maxSubscribers ≤ s.hal.subCount
      · rw [if_pos hc, if_pos (show maxSubscribers ≤ s.table.count from hc)]
        rfl
      · rw [if_neg hc, if_neg (show ¬ maxSubscribers ≤ s.table.count from hc)]
        rfl
  | insert =>
    obtain rfl := Option.some.inj hf
    have hw : s.table.waiting t = s.waiting t := rfl
    cases hwt : s.waiting t with
    | none => simp only [step, Table.step, hw, hwt, Option.map_none]
    | some sub =>
      simp only [step, Table.step, hw, hwt, insert_live hlock]
      rfl

theorem step_receive {s s' : Shared τ κ} {e : τ × SharedAction κ}
    (hf : SharedAction.registration e = none) (he : s.step e = some s') : s' = s := by
  obtain ⟨t, a⟩ := e
  cases a with
  | subscribe sub => cases hf
  | insert => cases hf
  | receive =>
    cases hw : s.waiting t with
    | some x => simp [step, hw] at he
    | none =>
      cases hrx : rxSnapshot s.hal with
      | error fault => simp [step, hw, hrx] at he
      | ok localSubs =>
        simp only [step, hw, hrx, Option.some.injEq] at he
        exact he.symm

theorem step_subLock {s s' : Shared τ κ} (hlock : s.hal.subLock = .live) {e : τ × SharedAction κ}
    (he : s.step e = some s') : s'.hal.subLock = .live := by
  obtain ⟨t, a⟩ := e
  cases a with
  | receive => exact step_receive rfl he ▸ hlock
  | subscribe sub =>
    cases hw : s.waiting t with
    | some x => simp [step, hw] at he
    | none =>
      simp only [step, hw] at he
      split_ifs at he with hc
      · exact Option.some.inj he ▸ hlock
      · exact Option.some.inj he ▸ hlock
  | insert =>
    cases hw : s.waiting t with
    | none => simp [step, hw] at he
    | some sub =>
      simp only [step, hw, insert_live hlock, Option.some.injEq] at he
      exact he ▸ hlock

theorem run_subLock {o : InitOutcome} (ho : o.succeeds = true) {h : List (τ × SharedAction κ)}
    {s : Shared τ κ} (hr : Run step (start o) h s) : s.hal.subLock = .live :=
  hr.invariant (I := fun s ↦ s.hal.subLock = .live) (init_up κ ho).2
    fun _ _ _ hlock he ↦ step_subLock hlock he

theorem backend {o : InitOutcome} (ho : o.succeeds = true) :
    Backend (step : Shared τ κ → _ → _) (start o) table SharedAction.registration
      (fun t ↦ (t, .insert)) none where
  table_init := start_table ho
  stays _ _ _ _ _ he hf := congrArg table (step_receive hf he)
  moves _ s e s' d hr he hf := by
    rw [← step_registration (run_subLock ho hr) hf, he]
    rfl
  event_insert _ := rfl
  inserts _ s t s₁ hr he := by
    have hmap := step_registration (run_subLock ho hr) (e := (t, .insert)) rfl
    rw [he] at hmap
    obtain ⟨s', he', _⟩ := Option.map_eq_some_iff.mp hmap
    exact ⟨s', he'⟩

/-- Without a lock, which is what a failed init leaves, no call gets to insert. -/
theorem run_down {o : InitOutcome} (ho : o.succeeds = false) {h : List (τ × SharedAction κ)}
    {s : Shared τ κ} (hr : Run step (start o) h s) :
    s.hal = (canHalInit SocketCan.start o).2 ∧ ∀ e ∈ h, e.2 ≠ .insert := by
  have hdown := (init_down κ ho).2
  refine hr.history_invariant
    (R := fun h s ↦ s.hal = (canHalInit SocketCan.start o).2 ∧ ∀ e ∈ h, e.2 ≠ .insert)
    ⟨rfl, by simp⟩ fun h s e s' hI he ↦ ?_
  obtain ⟨t, a⟩ := e
  obtain ⟨hhal, hall⟩ := hI
  cases a with
  | receive =>
    exact ⟨step_receive rfl he ▸ hhal, List.forall_mem_cons.mpr ⟨by simp, hall⟩⟩
  | subscribe sub =>
    refine ⟨?_, List.forall_mem_cons.mpr ⟨by simp, hall⟩⟩
    cases hw : s.waiting t with
    | some x => simp [step, hw] at he
    | none =>
      simp only [step, hw] at he
      split_ifs at he with hc
      · exact Option.some.inj he ▸ hhal
      · exact Option.some.inj he ▸ hhal
  | insert =>
    cases hw : s.waiting t with
    | none => simp [step, hw] at he
    | some sub =>
      have hlock : s.hal.subLock = .null := hhal ▸ hdown.subLock
      simp only [step, hw, insert_null hlock, reduceCtorEq] at he

end Shared

end SocketCan

/-- Registration stays within its table as long as every capacity test that a call
passes finds room for the calls between their test and their insertion as well.
Once a test does not, these calls can overrun the table. -/
theorem registration_bounded_iff {τ κ : Type} [DecidableEq τ] :
    (∀ h (s : VirtualBus τ κ), Run VirtualBus.step VirtualBus.canHalInit h s →
      (Table.Reserved VirtualBus.maxSubscribers none (VirtualBus.registrations h) →
        Table.Sound none (VirtualBus.registrations h) s.table ∧
        ∀ h₁ s₁, h₁ <:+ h → Run VirtualBus.step VirtualBus.canHalInit h₁ s₁ →
          s₁.subCount ≤ VirtualBus.maxSubscribers) ∧
      ((∀ k s', (∀ e ∈ k, ∃ t, e = ⟨t, .insert⟩) →
          Run VirtualBus.step VirtualBus.canHalInit (k ++ h) s' →
          s'.subCount ≤ VirtualBus.maxSubscribers) ↔
        Table.Reserved VirtualBus.maxSubscribers none (VirtualBus.registrations h))) ∧
    (∀ o h (s : SocketCan.Shared τ κ), o.succeeds = true →
      Run SocketCan.Shared.step (SocketCan.Shared.start o) h s →
      (Table.Reserved SocketCan.maxSubscribers none (SocketCan.Shared.registrations h) →
        Table.Sound none (SocketCan.Shared.registrations h) s.table ∧
        ∀ h₁ s₁, h₁ <:+ h → Run SocketCan.Shared.step (SocketCan.Shared.start o) h₁ s₁ →
          s₁.hal.subCount ≤ SocketCan.maxSubscribers) ∧
      ((∀ k s', (∀ e ∈ k, ∃ t, e = (t, .insert)) →
          Run SocketCan.Shared.step (SocketCan.Shared.start o) (k ++ h) s' →
          s'.hal.subCount ≤ SocketCan.maxSubscribers) ↔
        Table.Reserved SocketCan.maxSubscribers none (SocketCan.Shared.registrations h))) ∧
    ∀ o h (s : SocketCan.Shared τ κ), o.succeeds = false →
      Run SocketCan.Shared.step (SocketCan.Shared.start o) h s →
      s.hal.subCount = 0 ∧ ∀ e ∈ h, e.2 ≠ .insert := by
  refine ⟨fun h s hr ↦ VirtualBus.backend.bounded_iff hr,
    fun o h s ho hr ↦ (SocketCan.Shared.backend ho).bounded_iff hr, fun o h s ho hr ↦ ?_⟩
  obtain ⟨hhal, hall⟩ := SocketCan.Shared.run_down ho hr
  exact ⟨hhal ▸ (SocketCan.init_down κ ho).2.subCount, hall⟩

def soloSubscriptions : ℕ → List (BusEvent Bool ℕ)
  | 0 => []
  | n + 1 => ⟨false, .insert⟩ :: ⟨false, .subscribe (some n)⟩ :: soloSubscriptions n

theorem registration_bounded_solo :
    (∃ s : VirtualBus Bool ℕ,
      Run VirtualBus.step VirtualBus.canHalInit (soloSubscriptions 2) s ∧
      Table.Sound none (VirtualBus.registrations (soloSubscriptions 2)) s.table) ∧
    ∃ s : SocketCan.Shared Bool ℕ,
      Run SocketCan.Shared.step (SocketCan.Shared.start ⟨3, 0, 0, true⟩)
        [(false, .insert), (true, .insert), (true, .subscribe (some 1)),
          (false, .subscribe (some 0))] s ∧
      s.hal.subCount ≤ SocketCan.maxSubscribers := by
  constructor
  · have hreplay : (replay VirtualBus.step VirtualBus.canHalInit (soloSubscriptions 2)).map
        (·.subCount) = some 2 := rfl
    obtain ⟨s, hr, hs⟩ := exists_run _ hreplay
    have hfits : s.table.Fits := Table.fits_of_card (by
      rw [show s.table.count = 2 from hs, Fintype.card_bool]
      decide)
    have hres := (Table.fits_iff_reserved (VirtualBus.backend.run_table hr)).mp hfits
    exact ⟨s, hr, ((registration_bounded_iff.1 _ s hr).1 hres).1⟩
  · have ho : SocketCan.InitOutcome.succeeds ⟨3, 0, 0, true⟩ = true := by decide
    have hreplay : (replay SocketCan.Shared.step (SocketCan.Shared.start ⟨3, 0, 0, true⟩)
        [(false, .insert), (true, .insert), (true, .subscribe (some 1)),
          (false, .subscribe (some 0))]).map (·.hal.subCount) = some 2 := rfl
    obtain ⟨s, hr, hs⟩ := exists_run _ hreplay
    have hfits : s.table.Fits := Table.fits_of_card (by
      rw [show s.table.count = 2 from hs, Fintype.card_bool]
      decide)
    have hres :=
      (Table.fits_iff_reserved ((SocketCan.Shared.backend ho).run_table hr)).mp hfits
    exact ⟨s, hr, ((registration_bounded_iff.2.1 _ _ s ho hr).1 hres).2 _ s List.suffix_rfl hr⟩

def racingTests : List (BusEvent Bool ℕ) :=
  ⟨true, .subscribe (some 8)⟩ :: ⟨false, .subscribe (some 7)⟩ :: soloSubscriptions 7

/-- Both of them insert, the second one behind the end of the table. -/
theorem registration_overruns :
    ∃ s₁ s : VirtualBus Bool ℕ,
      Run VirtualBus.step VirtualBus.canHalInit (⟨false, .insert⟩ :: racingTests) s₁ ∧
      s₁.subCount = VirtualBus.maxSubscribers ∧
      s₁.step ⟨true, .insert⟩ = some s ∧ s.subCount = VirtualBus.maxSubscribers + 1 ∧
      s.table.entries[s₁.subCount]? = none := by
  have hreplay : (replay VirtualBus.step VirtualBus.canHalInit
      (⟨false, .insert⟩ :: racingTests)).map (fun s ↦ (s.subCount, s.stack true)) =
      some (VirtualBus.maxSubscribers, [.subscribe (some 8)]) := rfl
  obtain ⟨s₁, hr, hs₁⟩ := exists_run _ hreplay
  obtain ⟨hcount, hstack⟩ := Prod.mk.inj hs₁
  refine ⟨s₁, s₁.insert true (some 8) [], hr, hcount, ?_, ?_, ?_⟩
  · simp only [VirtualBus.step, hstack]
  · exact congrArg (· + 1) hcount
  · rw [hcount]
    rfl

end BmsFirmware
