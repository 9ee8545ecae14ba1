import BmsFirmware.BroadcastOrder
import BmsFirmware.Lib.CallStack
import BmsFirmware.Registration

namespace BmsFirmware

open Config Lib.History Lib.Registration Lib.CallStack Lib.Broadcast

def HalFrame.num {κ : Type} : HalFrame κ → Option ℕ
  | .send c => some c.tx.num
  | .subscribe _ => none

def BusEvent.call {τ κ : Type} : BusEvent τ κ → Option (τ × CallAction)
  | ⟨t, .send (some frame)⟩ => if frame.dlc.toNat > canMaxDlc then none else some (t, .call)
  | ⟨t, .sendReturn⟩ => some (t, .finish)
  | _ => none

theorem Transmission.Receives.lt {κ : Type} {tx : Transmission κ} {p : ℕ} (h : tx.Receives p) :
    p < tx.localSubs.length := by
  obtain ⟨k, hk⟩ := h
  exact (List.getElem?_eq_some_iff.mp hk).1

namespace VirtualBus

variable {τ κ : Type}

def calls (s : VirtualBus τ κ) : Calls τ where
  started := s.sent.length
  active := fun t ↦ (s.stack t).filterMap HalFrame.num

theorem mem_calls {s : VirtualBus τ κ} {t : τ} {n : ℕ} :
    n ∈ s.calls.active t ↔ ∃ c, .send c ∈ s.stack t ∧ c.tx.num = n := by
  constructor
  · intro h
    obtain ⟨f, hf, hnum⟩ := List.mem_filterMap.mp h
    cases f with
    | send c => exact ⟨c, hf, Option.some.inj hnum⟩
    | subscribe sub => cases hnum
  · intro h
    obtain ⟨c, hc, rfl⟩ := h
    exact List.mem_filterMap.mpr ⟨.send c, hc, rfl⟩

theorem active_calls {s : VirtualBus τ κ} {c : SendCall κ} (h : s.Active c) :
    ∃ t, c.tx.num ∈ s.calls.active t := by
  obtain ⟨t, ht⟩ := h
  exact ⟨t, mem_calls.mpr ⟨c, ht, rfl⟩⟩

/-- What the bus keeps up in every run: no callback is made twice, a send in progress
has made those of the entries behind it, and a finished one has made them all. -/
structure Delivered (s : VirtualBus τ κ) : Prop where
  numbered : s.sent.map (·.num) = (List.range s.sent.length).reverse
  active : ∀ c, s.Active c → c.tx ∈ s.sent
  heardSent : ∀ r ∈ s.log, r.tx ∈ s.sent
  nodup : s.receptions.Nodup
  progress : ∀ c, s.Active c → ∀ p,
    (c.tx.num, p) ∈ s.receptions ↔ c.tx.Receives p ∧ p < c.next
  done : ∀ tx ∈ s.sent, s.calls.Finished tx.num → ∀ p,
    (tx.num, p) ∈ s.receptions ↔ tx.Receives p

theorem init_delivered : Delivered (canHalInit : VirtualBus τ κ) where
  numbered := rfl
  active := by simp [canHalInit, Active]
  heardSent := by simp [canHalInit]
  nodup := List.nodup_nil
  progress := by simp [canHalInit, Active]
  done := by simp [canHalInit]

theorem Delivered.num_lt {s : VirtualBus τ κ} (h : Delivered s) {tx : Transmission κ}
    (htx : tx ∈ s.sent) : tx.num < s.sent.length := by
  have hmem : tx.num ∈ s.sent.map (·.num) := List.mem_map_of_mem htx
  rw [h.numbered, List.mem_reverse] at hmem
  exact List.mem_range.mp hmem

theorem Delivered.unique {s : VirtualBus τ κ} (h : Delivered s) {tx tx' : Transmission κ}
    (htx : tx ∈ s.sent) (htx' : tx' ∈ s.sent) (hnum : tx.num = tx'.num) : tx = tx' := by
  have hnodup : (s.sent.map (·.num)).Nodup := by
    rw [h.numbered]
    exact List.nodup_reverse.mpr List.nodup_range
  exact List.inj_on_of_nodup_map hnodup htx htx' hnum

theorem Delivered.of_heard {s : VirtualBus τ κ} (h : Delivered s) {n p : ℕ}
    (hr : (n, p) ∈ s.receptions) : n < s.sent.length := by
  obtain ⟨r, hmem, heq⟩ := List.mem_map.mp hr
  obtain ⟨rfl, rfl⟩ := Prod.mk.inj heq
  exact h.num_lt (h.heardSent r hmem)

theorem Delivered.same {s s' : VirtualBus τ κ} (h : Delivered s) (hsent : s'.sent = s.sent)
    (hlog : s'.log = s.log) (hactive : ∀ c, s'.Active c → s.Active c)
    (hcalls : s'.calls = s.calls) : Delivered s' := by
  have hrec : s'.receptions = s.receptions := congrArg (List.map _) hlog
  constructor
  · rw [hsent]
    exact h.numbered
  · intro c hc
    rw [hsent]
    exact h.active c (hactive c hc)
  · rw [hsent, hlog]
    exact h.heardSent
  · rw [hrec]
    exact h.nodup
  · intro c hc
    rw [hrec]
    exact h.progress c (hactive c hc)
  · rw [hsent, hcalls, hrec]
    exact h.done

/-- A callback is only ever made for an entry of the copied table that has one. -/
theorem Delivered.receives {s : VirtualBus τ κ} (h : Delivered s) {tx : Transmission κ}
    (htx : tx ∈ s.sent) {p : ℕ} (hp : (tx.num, p) ∈ s.receptions) : tx.Receives p := by
  by_cases hfin : s.calls.Finished tx.num
  · exact (h.done tx htx hfin p).mp hp
  · have hactive : ∃ t, tx.num ∈ s.calls.active t := by
      by_contra hnone
      exact hfin ⟨h.num_lt htx, fun t ht ↦ hnone ⟨t, ht⟩⟩
    obtain ⟨t, ht⟩ := hactive
    obtain ⟨c, hmem, hnum⟩ := mem_calls.mp ht
    have hc : s.Active c := ⟨t, hmem⟩
    obtain rfl := h.unique (h.active c hc) htx hnum
    exact ((h.progress c hc p).mp hp).1

theorem localSubs_length_le (s : VirtualBus τ κ) : s.localSubs.length ≤ s.subCount :=
  List.length_take_le _ _

variable [DecidableEq τ]

theorem calls_update {s s' : VirtualBus τ κ} {t : τ} {st : List (HalFrame κ)}
    (hs : s'.stack = Function.update s.stack t st) : s'.calls =
      ⟨s'.sent.length, Function.update s.calls.active t (st.filterMap HalFrame.num)⟩ := by
  have hactive : (fun u ↦ (s'.stack u).filterMap HalFrame.num) =
      Function.update s.calls.active t (st.filterMap HalFrame.num) := by
    funext u
    rw [hs]
    by_cases hu : u = t
    · subst hu
      rw [Function.update_self, Function.update_self]
    · rw [Function.update_of_ne hu, Function.update_of_ne hu]
      rfl
  exact congrArg (Calls.mk s'.sent.length) hactive

theorem calls_same {s s' : VirtualBus τ κ} {t : τ} {st : List (HalFrame κ)}
    (hs : s'.stack = Function.update s.stack t st) (hsent : s'.sent = s.sent)
    (hst : st.filterMap HalFrame.num = (s.stack t).filterMap HalFrame.num) :
    s'.calls = s.calls := by
  have hactive : Function.update s.calls.active t (st.filterMap HalFrame.num) =
      s.calls.active := by
    rw [Function.update_eq_self_iff, hst]
    rfl
  rw [calls_update hs, hactive, hsent]
  rfl

theorem step_calls_stays {s s' : VirtualBus τ κ} {e : BusEvent τ κ} (he : s.step e = some s')
    (hf : e.call = none) : s'.calls = s.calls := by
  obtain ⟨t, a⟩ := e
  cases step_stepped he with
  | full sub hc => rfl
  | rejected frame hr => rfl
  | subscribe sub hc => exact calls_same rfl rfl rfl
  | insert sub st hst => exact calls_same rfl rfl (hst ▸ rfl)
  | send frame hr =>
    simp only [BusEvent.call] at hf
    rw [if_neg hr.not_gt] at hf
    cases hf
  | skip c st hst hcb hs => exact calls_same rfl rfl (hst ▸ rfl)
  | callback c st hst hcb hs => exact calls_same rfl rfl (hst ▸ rfl)
  | callbackReturn c st hst hcb => exact calls_same rfl rfl (hst ▸ rfl)
  | sendReturn c st hst hcb hn => cases hf

theorem calls_send {s s' : VirtualBus τ κ} {t : τ} {c : SendCall κ}
    (hs : s'.stack = Function.update s.stack t (.send c :: s.stack t))
    (hsent : s'.sent.length = s.sent.length + 1) (hnum : c.tx.num = s.sent.length) :
    s.calls.step (t, .call) = some s'.calls := by
  have hhead : HalFrame.num (.send c) = some s.sent.length := congrArg some hnum
  rw [calls_update hs, hsent, List.filterMap_cons_some hhead]
  rfl

theorem step_calls_moves {s s' : VirtualBus τ κ} {e : BusEvent τ κ} {d : τ × CallAction}
    (he : s.step e = some s') (hf : e.call = some d) : s.calls.step d = some s'.calls := by
  obtain ⟨t, a⟩ := e
  cases step_stepped he with
  | full sub hc => cases hf
  | subscribe sub hc => cases hf
  | insert sub st hst => cases hf
  | skip c st hst hcb hs => cases hf
  | callback c st hst hcb hs => cases hf
  | callbackReturn c st hst hcb => cases hf
  | rejected frame hr =>
    cases frame with
    | none => cases hf
    | some frame =>
      simp only [BusEvent.call] at hf
      rw [if_pos (hr frame rfl)] at hf
      cases hf
  | send frame hr =>
    simp only [BusEvent.call] at hf
    rw [if_neg hr.not_gt] at hf
    obtain rfl := Option.some.inj hf
    exact calls_send rfl rfl rfl
  | sendReturn c st hst hcb hn =>
    obtain rfl := Option.some.inj hf
    have hactive : s.calls.active t = c.tx.num :: st.filterMap HalFrame.num := by
      simp only [calls, hst]
      rfl
    have hcalls : (s.setStack t st).calls =
        ⟨s.sent.length, Function.update s.calls.active t (st.filterMap HalFrame.num)⟩ :=
      calls_update rfl
    simp only [Calls.step, hactive, hcalls]
    rfl

theorem run_calls {h : List (BusEvent τ κ)} {s : VirtualBus τ κ} (hr : Run step canHalInit h s) :
    Run Calls.step Calls.init (h.filterMap BusEvent.call) s.calls :=
  hr.project calls BusEvent.call (fun _ _ _ _ _ he hf ↦ step_calls_stays he hf)
    fun _ _ _ _ _ _ he hf ↦ step_calls_moves he hf

theorem calls_distinct {h : List (BusEvent τ κ)} {s : VirtualBus τ κ}
    (hr : Run step canHalInit h s) : s.calls.Distinct :=
  Calls.run_distinct (run_calls hr)

/-- While a send goes on, every other send in progress has a number of its own. -/
theorem active_advance {s s' : VirtualBus τ κ} (hd : s.calls.Distinct) {t : τ}
    {c c₁ : SendCall κ} {st : List (HalFrame κ)} (hst : s.stack t = .send c :: st)
    (hs : s'.stack = Function.update s.stack t (.send c₁ :: st)) {c' : SendCall κ}
    (h : s'.Active c') : c' = c₁ ∨ s.Active c' ∧ c'.tx.num ≠ c.tx.num := by
  have hcalls : s.calls.active t = c.tx.num :: st.filterMap HalFrame.num := by
    simp only [calls, hst]
    rfl
  obtain ⟨u, hu⟩ := h
  rw [hs] at hu
  by_cases hut : u = t
  · subst hut
    rw [Function.update_self] at hu
    rcases List.mem_cons.mp hu with heq | hmem
    · exact .inl (HalFrame.send.inj heq)
    · right
      refine ⟨⟨u, hst ▸ List.mem_cons_of_mem _ hmem⟩, fun hnum ↦ ?_⟩
      have hin : c.tx.num ∈ st.filterMap HalFrame.num :=
        List.mem_filterMap.mpr ⟨.send c', hmem, congrArg some hnum⟩
      exact (List.nodup_cons.mp (hcalls ▸ hd.nodup u)).1 hin
  · rw [Function.update_of_ne hut] at hu
    right
    refine ⟨⟨u, hu⟩, fun hnum ↦ ?_⟩
    have htop : c.tx.num ∈ s.calls.active t := hcalls ▸ List.mem_cons_self
    exact hd.apart t u c.tx.num (Ne.symm hut) htop (mem_calls.mpr ⟨c', hu, hnum⟩)

theorem Delivered.advance {s s' : VirtualBus τ κ} (h : Delivered s) (hd : s.calls.Distinct)
    {t : τ} {c c₁ : SendCall κ} {st : List (HalFrame κ)} (hst : s.stack t = .send c :: st)
    (hs : s'.stack = Function.update s.stack t (.send c₁ :: st)) (htx : c₁.tx = c.tx)
    (hnext : ∀ p, c.tx.Receives p → (p < c₁.next ↔ p < c.next)) (hsent : s'.sent = s.sent)
    (hlog : s'.log = s.log) : Delivered s' := by
  have hrec : s'.receptions = s.receptions := congrArg (List.map _) hlog
  have hc : s.Active c := ⟨t, hst ▸ List.mem_cons_self⟩
  have hcalls : s'.calls = s.calls := by
    apply calls_same hs hsent
    rw [hst]
    exact congrArg (fun n ↦ n :: st.filterMap HalFrame.num) (congrArg Transmission.num htx)
  constructor
  · rw [hsent]
    exact h.numbered
  · intro c' hc'
    rw [hsent]
    rcases active_advance hd hst hs hc' with rfl | ⟨hold, _⟩
    · exact htx ▸ h.active c hc
    · exact h.active c' hold
  · rw [hsent, hlog]
    exact h.heardSent
  · rw [hrec]
    exact h.nodup
  · intro c' hc' p
    rw [hrec]
    rcases active_advance hd hst hs hc' with rfl | ⟨hold, _⟩
    · rw [htx, h.progress c hc p]
      exact and_congr_right fun hp ↦ (hnext p hp).symm
    · exact h.progress c' hold p
  · rw [hsent, hcalls, hrec]
    exact h.done

theorem Delivered.callback {s s' : VirtualBus τ κ} (h : Delivered s) (hd : s.calls.Distinct)
    {t : τ} {c c₁ : SendCall κ} {st : List (HalFrame κ)} (hst : s.stack t = .send c :: st)
    (hs : s'.stack = Function.update s.stack t (.send c₁ :: st)) (htx : c₁.tx = c.tx)
    (hnext : c₁.next = c.next + 1) (hr : c.tx.Receives c.next) (hsent : s'.sent = s.sent)
    (hlog : s'.log = ⟨c.tx, c.next⟩ :: s.log) : Delivered s' := by
  have hrec : s'.receptions = (c.tx.num, c.next) :: s.receptions := by
    simp only [receptions, hlog, List.map_cons]
  have hc : s.Active c := ⟨t, hst ▸ List.mem_cons_self⟩
  have hcalls : s'.calls = s.calls := by
    apply calls_same hs hsent
    rw [hst]
    exact congrArg (fun n ↦ n :: st.filterMap HalFrame.num) (congrArg Transmission.num htx)
  have hnew : (c.tx.num, c.next) ∉ s.receptions := fun hmem ↦
    (h.progress c hc c.next).mp hmem |>.2.false
  constructor
  · rw [hsent]
    exact h.numbered
  · intro c' hc'
    rw [hsent]
    rcases active_advance hd hst hs hc' with rfl | ⟨hold, _⟩
    · exact htx ▸ h.active c hc
    · exact h.active c' hold
  · rw [hsent, hlog]
    exact List.forall_mem_cons.mpr ⟨h.active c hc, h.heardSent⟩
  · rw [hrec]
    exact List.nodup_cons.mpr ⟨hnew, h.nodup⟩
  · intro c' hc' p
    rw [hrec, List.mem_cons, Prod.mk.injEq]
    rcases active_advance hd hst hs hc' with rfl | ⟨hold, hne⟩
    · rw [htx, h.progress c hc p, hnext, Nat.lt_succ_iff_lt_or_eq]
      constructor
      · rintro (⟨_, rfl⟩ | ⟨hp, hlt⟩)
        · exact ⟨hr, .inr rfl⟩
        · exact ⟨hp, .inl hlt⟩
      · rintro ⟨hp, hlt | rfl⟩
        · exact .inr ⟨hp, hlt⟩
        · exact .inl ⟨rfl, rfl⟩
    · rw [or_iff_right fun heq ↦ hne heq.1]
      exact h.progress c' hold p
  · rw [hsent, hcalls, hrec]
    intro tx hsentTx hfin p
    have hne : tx.num ≠ c.tx.num := by
      intro heq
      obtain ⟨u, hu⟩ := active_calls hc
      exact hfin.2 u (heq ▸ hu)
    rw [List.mem_cons, Prod.mk.injEq, or_iff_right fun heq ↦ hne heq.1]
    exact h.done tx hsentTx hfin p

theorem Delivered.send {s s' : VirtualBus τ κ} (h : Delivered s) {t : τ} {c : SendCall κ}
    (hnum : c.tx.num = s.sent.length) (hnext : c.next = 0)
    (hs : s'.stack = Function.update s.stack t (.send c :: s.stack t))
    (hsent : s'.sent = c.tx :: s.sent) (hlog : s'.log = s.log) : Delivered s' := by
  have hrec : s'.receptions = s.receptions := congrArg (List.map _) hlog
  have hactive {c' : SendCall κ} (hc' : s'.Active c') : c' = c ∨ s.Active c' := by
    rcases active_update hs hc' with hmem | hc'
    · rcases List.mem_cons.mp hmem with heq | hmem
      · exact .inl (HalFrame.send.inj heq)
      · exact .inr ⟨t, hmem⟩
    · exact .inr hc'
  have hfresh (p : ℕ) : (c.tx.num, p) ∉ s.receptions := fun hmem ↦
    (hnum ▸ h.of_heard hmem).false
  constructor
  · rw [hsent, List.map_cons, List.length_cons, List.range_succ, List.reverse_append,
      ← h.numbered, hnum]
    rfl
  · intro c' hc'
    rw [hsent]
    rcases hactive hc' with rfl | hold
    · exact List.mem_cons_self
    · exact List.mem_cons_of_mem _ (h.active c' hold)
  · rw [hsent, hlog]
    exact fun r hr ↦ List.mem_cons_of_mem _ (h.heardSent r hr)
  · rw [hrec]
    exact h.nodup
  · intro c' hc' p
    rw [hrec]
    rcases hactive hc' with rfl | hold
    · refine iff_of_false (hfresh p) fun hp ↦ ?_
      exact absurd (hnext ▸ hp.2) (Nat.not_lt_zero p)
    · exact h.progress c' hold p
  · rw [hsent, hrec]
    intro tx htx hfin p
    have hin : ¬ s'.calls.Finished c.tx.num := by
      intro hfin
      have hcall : .send c ∈ s'.stack t := by
        rw [hs, Function.update_self]
        exact List.mem_cons_self
      exact hfin.2 t (mem_calls.mpr ⟨c, hcall, rfl⟩)
    rcases List.mem_cons.mp htx with rfl | htx
    · exact absurd hfin hin
    · refine h.done tx htx ⟨h.num_lt htx, fun u hu ↦ hfin.2 u ?_⟩ p
      obtain ⟨c', hmem, hnum'⟩ := mem_calls.mp hu
      refine mem_calls.mpr ⟨c', ?_, hnum'⟩
      rw [hs]
      by_cases hut : u = t
      · subst hut
        rw [Function.update_self]
        exact List.mem_cons_of_mem _ hmem
      · rw [Function.update_of_ne hut]
        exact hmem

/-- A send that returns has made the callbacks of all its entries. -/
theorem Delivered.sendReturn {s s' : VirtualBus τ κ} (h : Delivered s) {t : τ} {c : SendCall κ}
    {st : List (HalFrame κ)} (hst : s.stack t = .send c :: st)
    (hn : c.tx.localSubs.length ≤ c.next)
    (hs : s'.stack = Function.update s.stack t st) (hsent : s'.sent = s.sent)
    (hlog : s'.log = s.log) : Delivered s' := by
  have hrec : s'.receptions = s.receptions := congrArg (List.map _) hlog
  have hc : s.Active c := ⟨t, hst ▸ List.mem_cons_self⟩
  have hactive {c' : SendCall κ} (hc' : s'.Active c') : s.Active c' := by
    rcases active_update hs hc' with hmem | hold
    · exact ⟨t, hst ▸ List.mem_cons_of_mem _ hmem⟩
    · exact hold
  have hall (p : ℕ) (hp : c.tx.Receives p) : p < c.next := hp.lt.trans_le hn
  constructor
  · rw [hsent]
    exact h.numbered
  · intro c' hc'
    rw [hsent]
    exact h.active c' (hactive hc')
  · rw [hsent, hlog]
    exact h.heardSent
  · rw [hrec]
    exact h.nodup
  · intro c' hc'
    rw [hrec]
    exact h.progress c' (hactive hc')
  · rw [hsent, hrec]
    intro tx htx hfin p
    by_cases heq : tx.num = c.tx.num
    · obtain rfl := h.unique htx (h.active c hc) heq
      rw [h.progress c hc p]
      exact and_iff_left_of_imp (hall p)
    · refine h.done tx htx ⟨h.num_lt htx, fun u hu ↦ hfin.2 u ?_⟩ p
      obtain ⟨c', hmem, hnum⟩ := mem_calls.mp hu
      refine mem_calls.mpr ⟨c', ?_, hnum⟩
      rw [hs]
      by_cases hut : u = t
      · subst hut
        rw [Function.update_self]
        rw [hst] at hmem
        rcases List.mem_cons.mp hmem with hcall | hmem
        · exact absurd (HalFrame.send.inj hcall ▸ hnum.symm) heq
        · exact hmem
      · rw [Function.update_of_ne hut]
        exact hmem

theorem Delivered.step {s s' : VirtualBus τ κ} {t : τ} {a : BusAction κ} (h : Delivered s)
    (hd : s.calls.Distinct) (he : s.step ⟨t, a⟩ = some s') : Delivered s' := by
  cases step_stepped he with
  | full sub hc => exact h
  | rejected frame hf => exact h
  | subscribe sub hc =>
    refine h.same rfl rfl (fun c hc ↦ ?_) (calls_same rfl rfl rfl)
    rcases active_update rfl hc with hmem | hold
    · exact ⟨t, by simpa using hmem⟩
    · exact hold
  | insert sub st hst =>
    refine h.same rfl rfl (fun c hc ↦ ?_) (calls_same rfl rfl (hst ▸ rfl))
    rcases active_update rfl hc with hmem | hold
    · exact ⟨t, hst ▸ List.mem_cons_of_mem _ hmem⟩
    · exact hold
  | send frame hf => exact h.send rfl rfl rfl rfl rfl
  | skip c st hst hcb hs =>
    refine h.advance hd hst rfl rfl (fun p hp ↦ ?_) rfl rfl
    have hne : p ≠ c.next := by
      rintro rfl
      obtain ⟨k, hk⟩ := hp
      cases hs.symm.trans hk
    dsimp only
    omega
  | callback c st hst hcb hr => exact h.callback hd hst rfl rfl rfl hr rfl rfl
  | callbackReturn c st hst hcb => exact h.advance hd hst rfl rfl (fun _ _ ↦ Iff.rfl) rfl rfl
  | sendReturn c st hst hcb hn => exact h.sendReturn hst hn rfl rfl rfl

theorem run_delivered {h : List (BusEvent τ κ)} {s : VirtualBus τ κ}
    (hr : Run step canHalInit h s) : Delivered s := by
  induction hr with
  | start => exact init_delivered
  | @next h s s' e hs he ih => exact ih.step (calls_distinct hs) he

structure Inserts (h : List (BusEvent τ κ)) (u : τ) (sub : Option κ) (h₁ : List (BusEvent τ κ))
    (s₁ : VirtualBus τ κ) : Prop where
  suffix : ⟨u, .insert⟩ :: h₁ <:+ h
  run : Run step canHalInit h₁ s₁
  call : pendingSubscribe (s₁.stack u) = some sub

/-- The snapshot of an accepted send in a run, `s₁` being the state before it. -/
structure Sends (h : List (BusEvent τ κ)) (t : τ) (frame : CanFrame) (h₁ : List (BusEvent τ κ))
    (s₁ : VirtualBus τ κ) : Prop where
  suffix : ⟨t, .send (some frame)⟩ :: h₁ <:+ h
  run : Run step canHalInit h₁ s₁
  accepted : frame.dlc.toNat ≤ canMaxDlc

theorem step_sent {s s' : VirtualBus τ κ} {e : BusEvent τ κ} (he : s.step e = some s') :
    s.sent <:+ s'.sent := by
  obtain ⟨t, a⟩ := e
  cases step_stepped he with
  | send frame hf => exact List.suffix_cons _ _
  | _ => exact List.suffix_rfl

theorem run_sent {s s' : VirtualBus τ κ} {k : List (BusEvent τ κ)} (hr : Run step s k s') :
    s.sent <:+ s'.sent :=
  hr.invariant (I := fun s' ↦ s.sent <:+ s'.sent) List.suffix_rfl
    fun _ _ _ hs he ↦ hs.trans (step_sent he)

theorem Sends.mem {h h₁ : List (BusEvent τ κ)} {s s₁ : VirtualBus τ κ} {t : τ} {frame : CanFrame}
    (hs : Sends h t frame h₁ s₁) (hr : Run step canHalInit h s) :
    ⟨s₁.sent.length, frame, s₁.localSubs⟩ ∈ s.sent := by
  obtain ⟨k, rfl⟩ := hs.suffix
  obtain ⟨s₂, he, hrest⟩ := hr.cut hs.run
  refine (run_sent hrest).subset ?_
  cases step_stepped he with
  | rejected _ hf => exact absurd (hf frame rfl) hs.accepted.not_gt
  | send _ hf => exact List.mem_cons_self

theorem exists_sends {h : List (BusEvent τ κ)} {s : VirtualBus τ κ} (hr : Run step canHalInit h s)
    {tx : Transmission κ} (htx : tx ∈ s.sent) :
    ∃ t h₁ s₁, Sends h t tx.frame h₁ s₁ ∧ tx = ⟨s₁.sent.length, tx.frame, s₁.localSubs⟩ := by
  induction hr with
  | start => simp [canHalInit] at htx
  | @next h s s' e hs he ih =>
    have hbefore (hmem : tx ∈ s.sent) : ∃ t h₁ s₁, Sends (e :: h) t tx.frame h₁ s₁ ∧
        tx = ⟨s₁.sent.length, tx.frame, s₁.localSubs⟩ := by
      obtain ⟨t, h₁, s₁, hsends, heq⟩ := ih hmem
      exact ⟨t, h₁, s₁, ⟨hsends.suffix.trans (List.suffix_cons e h), hsends.run,
        hsends.accepted⟩, heq⟩
    obtain ⟨t, a⟩ := e
    cases step_stepped he with
    | send frame hf =>
      rcases List.mem_cons.mp htx with rfl | hmem
      · exact ⟨t, h, s, ⟨List.suffix_rfl, hs, hf⟩, rfl⟩
      · exact hbefore hmem
    | _ => exact hbefore htx

theorem run_subCount_le {h h₁ : List (BusEvent τ κ)} {s s₁ : VirtualBus τ κ}
    (hr : Run step canHalInit h s) (hsuf : h₁ <:+ h) (hr₁ : Run step canHalInit h₁ s₁) :
    s₁.subCount ≤ s.subCount :=
  backend.count_le_of_suffix hr hsuf hr₁

theorem exists_inserts {h : List (BusEvent τ κ)} {s : VirtualBus τ κ}
    (hr : Run step canHalInit h s) {p : ℕ} (hp : p < s.subCount) :
    ∃ u sub h₁ s₁, Inserts h u sub h₁ s₁ ∧ s₁.subCount = p := by
  obtain ⟨⟨t, a⟩, h₁, s₁, u, hsuf, hf, hr₁, hcount⟩ := backend.exists_insert hr hp
  obtain ⟨k, rfl⟩ := hsuf
  obtain ⟨s₂, he, _⟩ := hr.cut hr₁
  cases step_stepped he with
  | insert sub st hst =>
    obtain ⟨rfl, _⟩ := Prod.mk.inj (Option.some.inj hf)
    exact ⟨t, sub, h₁, s₁, ⟨⟨k, rfl⟩, hr₁, congrArg pendingSubscribe hst⟩, hcount⟩
  | _ => simp [BusEvent.registration] at hf

/-- A snapshot holds every subscription that was inserted before it. -/
theorem Inserts.localSubs {h₁ h₂ : List (BusEvent τ κ)} {s₁ s₂ : VirtualBus τ κ} {u : τ}
    {sub : Option κ} (hi : Inserts h₁ u sub h₂ s₂) (hr : Run step canHalInit h₁ s₁)
    (hn : s₁.subCount ≤ maxSubscribers) : s₁.localSubs[s₂.subCount]? = some sub := by
  obtain ⟨hlt, hentry⟩ := backend.insert_kept hr hn hi.suffix hi.run rfl hi.call
  have htake : s₁.localSubs[s₂.subCount]? = s₁.subs.toList[s₂.subCount]? :=
    List.getElem?_take_of_lt hlt
  rw [htake, Vector.getElem?_toList]
  exact hentry

theorem step_finished {s s' : VirtualBus τ κ} {e : BusEvent τ κ} {n : ℕ}
    (hn : s.calls.Finished n) (he : s.step e = some s') : s'.calls.Finished n := by
  cases hf : e.call with
  | none => exact step_calls_stays he hf ▸ hn
  | some d => exact hn.step (step_calls_moves he hf)

theorem run_log_of_finished {s s' : VirtualBus τ κ} {k : List (BusEvent τ κ)} {n : ℕ}
    (hn : s.calls.Finished n) (hr : Run step s k s') :
    ∃ new, s'.receptions = new ++ s.receptions ∧ ∀ p, (n, p) ∉ new := by
  have hinv := hr.invariant
    (I := fun s' ↦ s'.calls.Finished n ∧
      ∃ new, s'.receptions = new ++ s.receptions ∧ ∀ p, (n, p) ∉ new)
    ⟨hn, [], rfl, by simp⟩ fun s₁ e s₂ hI he ↦ ?_
  · exact hinv.2
  · obtain ⟨hfin, new, heq, hnew⟩ := hI
    refine ⟨step_finished hfin he, ?_⟩
    obtain ⟨t, a⟩ := e
    cases step_stepped he with
    | callback c st hst hcb hr =>
      have hin : c.tx.num ∈ s₁.calls.active t :=
        mem_calls.mpr ⟨c, hst ▸ List.mem_cons_self, rfl⟩
      refine ⟨(c.tx.num, c.next) :: new, congrArg (List.cons _) heq, fun p hp ↦ ?_⟩
      rcases List.mem_cons.mp hp with hp | hp
      · exact hfin.2 t ((Prod.mk.inj hp).1 ▸ hin)
      · exact hnew p hp
    | _ => exact ⟨new, heq, hnew⟩

/-- What the subscriptions hear of the sends of a run. A sender is a thread at one
depth of nested sends; messages are heard newest first. -/
structure ExactlyOnce (h : List (BusEvent τ κ)) (s : VirtualBus τ κ) : Prop where
  once : ∀ t frame h₁ s₁, Sends h t frame h₁ s₁ → s.calls.Finished s₁.sent.length →
    ∀ u sub h₂ s₂, Inserts h₁ u sub h₂ s₂ →
      s.receptions.count (s₁.sent.length, s₂.subCount) = if sub.isSome then 1 else 0
  nodup : s.receptions.Nodup
  only : ∀ t frame h₁ s₁, Sends h t frame h₁ s₁ → ∀ r ∈ s.log, r.tx.num = s₁.sent.length →
    r.tx.frame = frame ∧ ∃ u k h₂ s₂, Inserts h₁ u (some k) h₂ s₂ ∧ s₂.subCount = r.slot ∧
      r.tx.localSubs[r.slot]? = some (some k)
  late : ∀ t frame h₁ s₁, Sends h t frame h₁ s₁ → ∀ u sub h₂ s₂, Inserts h u sub h₂ s₂ →
    ⟨t, .send (some frame)⟩ :: h₁ <:+ h₂ → (s₁.sent.length, s₂.subCount) ∉ s.receptions
  inOrder : ∀ t frame frame' h₁ s₁ h₂ s₂, Sends h t frame' h₂ s₂ → Sends h₂ t frame h₁ s₁ →
    (s₂.calls.active t).length = (s₁.calls.active t).length →
    ∀ p, ¬ [s₁.sent.length, s₂.sent.length].Sublist (heard s.receptions p)
  accepted : ∀ r ∈ s.log, ∃ t h₁ s₁, Sends h t r.tx.frame h₁ s₁ ∧ r.tx.num = s₁.sent.length
  rejected : ∀ t frame h₁ s₁ s₂, ⟨t, .send frame⟩ :: h₁ <:+ h → Run step canHalInit h₁ s₁ →
    (∀ f, frame = some f → canMaxDlc < f.dlc.toNat) → s₁.step ⟨t, .send frame⟩ = some s₂ →
    s₂ = s₁

section Claims

variable {h : List (BusEvent τ κ)} {s : VirtualBus τ κ}

theorem Sends.subCount_le {t : τ} {frame : CanFrame} {h₁ : List (BusEvent τ κ)}
    {s₁ : VirtualBus τ κ} (hs : Sends h t frame h₁ s₁) (hr : Run step canHalInit h s)
    (hn : s.subCount ≤ maxSubscribers) : s₁.subCount ≤ maxSubscribers :=
  (run_subCount_le hr ((List.suffix_cons _ _).trans hs.suffix) hs.run).trans hn

theorem sends_once (hr : Run step canHalInit h s) (hn : s.subCount ≤ maxSubscribers) {t u : τ}
    {frame : CanFrame} {h₁ h₂ : List (BusEvent τ κ)} {s₁ s₂ : VirtualBus τ κ} {sub : Option κ}
    (hs : Sends h t frame h₁ s₁) (hfin : s.calls.Finished s₁.sent.length)
    (hi : Inserts h₁ u sub h₂ s₂) :
    s.receptions.count (s₁.sent.length, s₂.subCount) = if sub.isSome then 1 else 0 := by
  have hd := run_delivered hr
  have hentry := hi.localSubs hs.run (hs.subCount_le hr hn)
  have hiff := hd.done _ (hs.mem hr) hfin s₂.subCount
  cases sub with
  | none =>
    refine List.count_eq_zero.mpr fun hmem ↦ ?_
    obtain ⟨k, hk⟩ := hiff.mp hmem
    cases hentry.symm.trans hk
  | some k => exact List.count_eq_one_of_mem hd.nodup (hiff.mpr ⟨k, hentry⟩)

theorem sends_only (hr : Run step canHalInit h s) (hn : s.subCount ≤ maxSubscribers) {t : τ}
    {frame : CanFrame} {h₁ : List (BusEvent τ κ)} {s₁ : VirtualBus τ κ}
    (hs : Sends h t frame h₁ s₁) {r : Reception κ} (hmem : r ∈ s.log)
    (hnum : r.tx.num = s₁.sent.length) : r.tx.frame = frame ∧
      ∃ u k h₂ s₂, Inserts h₁ u (some k) h₂ s₂ ∧ s₂.subCount = r.slot ∧
        r.tx.localSubs[r.slot]? = some (some k) := by
  have hd := run_delivered hr
  have htx := hd.unique (hd.heardSent r hmem) (hs.mem hr) hnum
  have hrec : (r.tx.num, r.slot) ∈ s.receptions := List.mem_map_of_mem hmem
  obtain ⟨k, hk⟩ := hd.receives (hd.heardSent r hmem) hrec
  refine ⟨htx ▸ rfl, ?_⟩
  have hslot : r.slot < s₁.subCount := by
    have hlt := (List.getElem?_eq_some_iff.mp hk).1
    rw [htx] at hlt
    exact hlt.trans_le (localSubs_length_le s₁)
  obtain ⟨u, sub, h₂, s₂, hi, hcount⟩ := exists_inserts hs.run hslot
  have hlocal : r.tx.localSubs = s₁.localSubs := congrArg Transmission.localSubs htx
  have hentry := hi.localSubs hs.run (hs.subCount_le hr hn)
  rw [hcount, ← hlocal] at hentry
  obtain rfl : sub = some k := Option.some.inj (hentry.symm.trans hk)
  exact ⟨u, k, h₂, s₂, hi, hcount, hk⟩

theorem sends_late (hr : Run step canHalInit h s) {t u : τ} {frame : CanFrame}
    {h₁ h₂ : List (BusEvent τ κ)} {s₁ s₂ : VirtualBus τ κ} {sub : Option κ}
    (hs : Sends h t frame h₁ s₁) (hi : Inserts h u sub h₂ s₂)
    (hsuf : ⟨t, .send (some frame)⟩ :: h₁ <:+ h₂) :
    (s₁.sent.length, s₂.subCount) ∉ s.receptions := by
  intro hmem
  have hlt := ((run_delivered hr).receives (hs.mem hr) hmem).lt
  have hle := run_subCount_le hi.run ((List.suffix_cons _ _).trans hsuf) hs.run
  exact absurd (hlt.trans_le (localSubs_length_le s₁)) hle.not_gt

theorem Sends.call_suffix {t : τ} {frame : CanFrame} {h₁ : List (BusEvent τ κ)}
    {s₁ : VirtualBus τ κ} (hs : Sends h t frame h₁ s₁) :
    (t, .call) :: h₁.filterMap BusEvent.call <:+ h.filterMap BusEvent.call := by
  have hcall : BusEvent.call (⟨t, .send (some frame)⟩ : BusEvent τ κ) = some (t, .call) :=
    if_neg hs.accepted.not_gt
  have hevents := hs.suffix.filterMap BusEvent.call
  rwa [List.filterMap_cons_some hcall] at hevents

theorem sends_inOrder (hr : Run step canHalInit h s) {t : τ} {frame frame' : CanFrame}
    {h₁ h₂ : List (BusEvent τ κ)} {s₁ s₂ : VirtualBus τ κ} (hs₂ : Sends h t frame' h₂ s₂)
    (hs₁ : Sends h₂ t frame h₁ s₁)
    (hdepth : (s₂.calls.active t).length = (s₁.calls.active t).length) (p : ℕ) :
    ¬ [s₁.sent.length, s₂.sent.length].Sublist (heard s.receptions p) := by
  have hfin : s₂.calls.Finished s₁.sent.length :=
    Calls.finished_of_depth hs₁.call_suffix (run_calls hs₁.run) (run_calls hs₂.run) hdepth.le
  obtain ⟨k, hk⟩ := (List.suffix_cons _ _).trans hs₂.suffix
  have hrest : Run step s₂ k s := (hk ▸ hr).rest hs₂.run
  obtain ⟨new, heq, hnew⟩ := run_log_of_finished hfin hrest
  rw [heq]
  exact not_sublist_of_over hnew (fun q hq ↦ ((run_delivered hs₂.run).of_heard hq).false) p

/-- The virtual bus delivers exactly once: in every run that does not overrun the
table each accepted frame reaches each subscription inserted before its snapshot
once, nobody else, and in the order of its sender. -/
theorem delivery_exactly_once (hr : Run step canHalInit h s) (hn : s.subCount ≤ maxSubscribers) :
    ExactlyOnce h s where
  once _ _ _ _ hs hfin _ _ _ _ hi := sends_once hr hn hs hfin hi
  nodup := (run_delivered hr).nodup
  only _ _ _ _ hs _ hmem hnum := sends_only hr hn hs hmem hnum
  late _ _ _ _ hs _ _ _ _ hi hsuf := sends_late hr hs hi hsuf
  inOrder _ _ _ _ _ _ _ hs₂ hs₁ hdepth p := sends_inOrder hr hs₂ hs₁ hdepth p
  accepted r hmem := by
    obtain ⟨t, h₁, s₁, hs, heq⟩ := exists_sends hr ((run_delivered hr).heardSent r hmem)
    exact ⟨t, h₁, s₁, hs, congrArg Transmission.num heq⟩
  rejected t frame h₁ s₁ s₂ _ _ hf he := by
    cases step_stepped he with
    | rejected _ _ => rfl
    | send frame hle => exact absurd (hf frame rfl) hle.not_gt

theorem delivery_exactly_once_one_by_one : ∃ s, Run step canHalInit oneByOne s ∧
    s.subCount ≤ maxSubscribers ∧ ExactlyOnce oneByOne s := by
  have hreplay : (replay step canHalInit oneByOne).map (·.subCount) = some 2 := by
    decide +kernel
  obtain ⟨s, hr, hcount⟩ := exists_run _ hreplay
  have hn : s.subCount ≤ maxSubscribers := by
    rw [hcount]
    decide
  exact ⟨s, hr, hn, delivery_exactly_once hr hn⟩

end Claims

end VirtualBus

end BmsFirmware
