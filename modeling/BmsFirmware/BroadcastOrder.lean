import BmsFirmware.Lib.Broadcast
import BmsFirmware.VirtualBus

namespace BmsFirmware

open Config Lib.History Lib.Broadcast

def Transmission.Shared {κ : Type} (tx : Transmission κ) : Prop :=
  ∃ p q, p ≠ q ∧ tx.Receives p ∧ tx.Receives q

def SendCall.Pending {κ : Type} (c : SendCall κ) : Prop :=
  ∃ p, c.next ≤ p ∧ c.tx.Receives p

namespace VirtualBus

variable {τ κ : Type}

def receptions (s : VirtualBus τ κ) : List (ℕ × ℕ) := s.log.map fun r ↦ (r.tx.num, r.slot)

def Active (s : VirtualBus τ κ) (c : SendCall κ) : Prop := ∃ t, .send c ∈ s.stack t

/-- No transmission with two or more receivers has a callback to make. -/
def Quiet (s : VirtualBus τ κ) : Prop := ∀ c, s.Active c → c.tx.Shared → ¬ c.Pending

theorem quiet_of_idle {s : VirtualBus τ κ} (h : ∀ t, s.stack t = []) : Quiet s := by
  intro c hc
  obtain ⟨t, ht⟩ := hc
  simp [h t] at ht

/-- What non-overlapping snapshots keep up. Only the latest transmission can have
callbacks to make, unless it has one receiver; so whatever is heard late was
sent late. -/
structure Ordered (s : VirtualBus τ κ) : Prop where
  num_lt : ∀ tx ∈ s.sent, tx.num < s.sent.length
  unique : ∀ tx ∈ s.sent, ∀ tx' ∈ s.sent, tx.num = tx'.num → tx = tx'
  active : ∀ c, s.Active c → c.tx ∈ s.sent
  heardSent : ∀ r ∈ s.log, r.tx ∈ s.sent
  receives : ∀ r ∈ s.log, r.tx.Receives r.slot
  latest : ∀ c, s.Active c → c.tx.Shared → c.Pending → c.tx.num + 1 = s.sent.length
  order : s.log.Pairwise fun r r' ↦ r.tx.num < r'.tx.num → ¬ r.tx.Shared

theorem init_ordered : Ordered (canHalInit : VirtualBus τ κ) where
  num_lt := by simp [canHalInit]
  unique := by simp [canHalInit]
  active := by simp [canHalInit, Active]
  heardSent := by simp [canHalInit]
  receives := by simp [canHalInit]
  latest := by simp [canHalInit, Active]
  order := List.Pairwise.nil

/-- Steps that neither take a snapshot nor make a callback only shrink the set of
sends in progress, or what these have still to do. -/
theorem Ordered.of_active {s s' : VirtualBus τ κ} (h : Ordered s) (hsent : s'.sent = s.sent)
    (hlog : s'.log = s.log) (hactive : ∀ c', s'.Active c' →
      ∃ c, s.Active c ∧ c.tx = c'.tx ∧ (c'.Pending → c.Pending)) : Ordered s' where
  num_lt := hsent ▸ h.num_lt
  unique := hsent ▸ h.unique
  active c' hc' := by
    obtain ⟨c, hc, htx, _⟩ := hactive c' hc'
    exact hsent ▸ htx ▸ h.active c hc
  heardSent := by
    rw [hsent, hlog]
    exact h.heardSent
  receives := hlog ▸ h.receives
  latest c' hc' hshared hpending := by
    obtain ⟨c, hc, htx, hp⟩ := hactive c' hc'
    rw [hsent, ← htx]
    exact h.latest c hc (htx ▸ hshared) (hp hpending)
  order := hlog ▸ h.order

theorem Ordered.shared {s : VirtualBus τ κ} (h : Ordered s) {r r' : Reception κ}
    (hr : r ∈ s.log) (hr' : r' ∈ s.log) (hnum : r.tx.num = r'.tx.num) (hslot : r.slot ≠ r'.slot) :
    r.tx.Shared := by
  have htx : r.tx = r'.tx := h.unique r.tx (h.heardSent r hr) r'.tx (h.heardSent r' hr') hnum
  exact ⟨r.slot, r'.slot, hslot, h.receives r hr, htx ▸ h.receives r' hr'⟩

theorem Ordered.totallyOrdered {s : VirtualBus τ κ} (h : Ordered s) :
    TotallyOrdered s.receptions := by
  have hlate : LateAlone s.receptions := by
    refine List.pairwise_map.mpr (h.order.imp_of_mem fun {r r'} hr _ hlone hlt q hq ↦ ?_)
    obtain ⟨r₁, hr₁, heq⟩ := List.mem_map.mp hq
    obtain ⟨hnum, rfl⟩ := Prod.mk.inj heq
    by_contra hne
    exact hlone hlt (h.shared hr hr₁ hnum.symm (Ne.symm hne))
  exact hlate.totallyOrdered

variable [DecidableEq τ]

def NonOverlapping (h : List (BusEvent τ κ)) : Prop :=
  ∀ t frame h₁ s₁, ⟨t, .send (some frame)⟩ :: h₁ <:+ h → frame.dlc.toNat ≤ canMaxDlc →
    Run step canHalInit h₁ s₁ → Quiet s₁

theorem active_update {s s' : VirtualBus τ κ} {t : τ} {st : List (HalFrame κ)}
    (hs : s'.stack = Function.update s.stack t st) {c : SendCall κ} (h : s'.Active c) :
    .send c ∈ st ∨ s.Active c := by
  obtain ⟨u, hu⟩ := h
  rw [hs] at hu
  by_cases ht : u = t
  · subst ht
    rw [Function.update_self] at hu
    exact .inl hu
  · rw [Function.update_of_ne ht] at hu
    exact .inr ⟨u, hu⟩

def Shrinks (st st' : List (HalFrame κ)) : Prop :=
  ∀ c', .send c' ∈ st' → ∃ c, .send c ∈ st ∧ c.tx = c'.tx ∧ (c'.Pending → c.Pending)

theorem shrinks_of_subset {st st' : List (HalFrame κ)}
    (h : ∀ c, HalFrame.send c ∈ st' → .send c ∈ st) : Shrinks st st' :=
  fun c hc ↦ ⟨c, h c hc, rfl, id⟩

theorem shrinks_advance {c c₁ : SendCall κ} (st : List (HalFrame κ)) (htx : c.tx = c₁.tx)
    (hn : c.next ≤ c₁.next) : Shrinks (.send c :: st) (.send c₁ :: st) := by
  intro c' hc'
  rcases List.mem_cons.mp hc' with heq | hmem
  · obtain rfl := HalFrame.send.inj heq
    refine ⟨c, List.mem_cons_self, htx, fun hp ↦ hp.imp fun p hp ↦ ?_⟩
    exact ⟨hn.trans hp.1, htx ▸ hp.2⟩
  · exact ⟨c', List.mem_cons_of_mem _ hmem, rfl, id⟩

theorem Ordered.shrink {s s' : VirtualBus τ κ} (h : Ordered s) {t : τ} {st : List (HalFrame κ)}
    (hs : s'.stack = Function.update s.stack t st) (hst : Shrinks (s.stack t) st)
    (hsent : s'.sent = s.sent) (hlog : s'.log = s.log) : Ordered s' := by
  refine h.of_active hsent hlog fun c' hc' ↦ ?_
  rcases active_update hs hc' with hmem | hc'
  · obtain ⟨c, hmem, hc⟩ := hst c' hmem
    exact ⟨c, ⟨t, hmem⟩, hc⟩
  · exact ⟨c', hc', rfl, id⟩

theorem Ordered.send {s s' : VirtualBus τ κ} (h : Ordered s) (hq : Quiet s) {t : τ}
    {c : SendCall κ} (hnum : c.tx.num = s.sent.length)
    (hs : s'.stack = Function.update s.stack t (.send c :: s.stack t))
    (hsent : s'.sent = c.tx :: s.sent) (hlog : s'.log = s.log) : Ordered s' := by
  have hactive {c' : SendCall κ} (hc' : s'.Active c') : c' = c ∨ s.Active c' := by
    rcases active_update hs hc' with hmem | hc'
    · rcases List.mem_cons.mp hmem with heq | hmem
      · exact .inl (HalFrame.send.inj heq)
      · exact .inr ⟨t, hmem⟩
    · exact .inr hc'
  have hlt : ∀ tx ∈ s.sent, tx.num < c.tx.num := hnum ▸ h.num_lt
  constructor
  · rw [hsent, List.length_cons]
    exact List.forall_mem_cons.mpr ⟨hnum ▸ Nat.lt_succ_self _,
      fun tx htx ↦ Nat.lt_succ_of_lt (h.num_lt tx htx)⟩
  · rw [hsent]
    intro tx htx tx' htx' heq
    rcases List.mem_cons.mp htx with rfl | htx <;> rcases List.mem_cons.mp htx' with rfl | htx'
    · rfl
    · exact absurd heq (hlt tx' htx').ne'
    · exact absurd heq (hlt tx htx).ne
    · exact h.unique tx htx tx' htx' heq
  · intro c' hc'
    rw [hsent]
    rcases hactive hc' with rfl | hc'
    · exact List.mem_cons_self
    · exact List.mem_cons_of_mem _ (h.active c' hc')
  · rw [hsent, hlog]
    exact fun r hr ↦ List.mem_cons_of_mem _ (h.heardSent r hr)
  · exact hlog ▸ h.receives
  · intro c' hc' hshared hpending
    rcases hactive hc' with rfl | hc'
    · rw [hnum, hsent, List.length_cons]
    · exact absurd hpending (hq c' hc' hshared)
  · exact hlog ▸ h.order

/-- A callback belongs to the latest transmission, or to one without other receivers. -/
theorem Ordered.callback {s s' : VirtualBus τ κ} (h : Ordered s) {t : τ} {c : SendCall κ}
    {st : List (HalFrame κ)} (hst : s.stack t = .send c :: st) (hr : c.tx.Receives c.next)
    (hs : s'.stack =
      Function.update s.stack t (.send { c with next := c.next + 1, inCallback := true } :: st))
    (hsent : s'.sent = s.sent) (hlog : s'.log = ⟨c.tx, c.next⟩ :: s.log) : Ordered s' := by
  have hc : s.Active c := ⟨t, hst ▸ List.mem_cons_self⟩
  have hquiet : Ordered { s' with log := s.log } :=
    h.shrink hs (hst ▸ shrinks_advance st rfl (Nat.le_succ _)) hsent rfl
  refine ⟨hquiet.num_lt, hquiet.unique, hquiet.active, ?_, ?_, hquiet.latest, ?_⟩
  · rw [hlog, hsent]
    exact List.forall_mem_cons.mpr ⟨h.active c hc, h.heardSent⟩
  · rw [hlog]
    exact List.forall_mem_cons.mpr ⟨hr, h.receives⟩
  · rw [hlog]
    refine List.pairwise_cons.mpr ⟨fun r hmem hlt hshared ↦ ?_, h.order⟩
    have hlast := h.latest c hc hshared ⟨c.next, le_rfl, hr⟩
    have hold := h.num_lt r.tx (h.heardSent r hmem)
    have hle : r.tx.num ≤ c.tx.num := by omega
    exact absurd hlt hle.not_gt

theorem Ordered.step {s s' : VirtualBus τ κ} {t : τ} {a : BusAction κ} (h : Ordered s)
    (hq : ∀ frame : CanFrame, a = .send (some frame) → frame.dlc.toNat ≤ canMaxDlc → Quiet s)
    (he : s.step ⟨t, a⟩ = some s') : Ordered s' := by
  cases step_stepped he with
  | full sub hc => exact h
  | rejected frame hf => exact h
  | subscribe sub hc =>
    exact h.shrink rfl (shrinks_of_subset fun c hc ↦ by simpa using hc) rfl rfl
  | insert sub st hst =>
    refine h.shrink rfl (shrinks_of_subset fun c hc ↦ ?_) rfl rfl
    exact hst ▸ List.mem_cons_of_mem _ hc
  | send frame hf => exact h.send (hq frame rfl hf) rfl rfl rfl rfl
  | skip c st hst hcb hs =>
    exact h.shrink rfl (hst ▸ shrinks_advance st rfl (Nat.le_succ _)) rfl rfl
  | callback c st hst hcb hr => exact h.callback hst hr rfl rfl rfl
  | callbackReturn c st hst hcb =>
    exact h.shrink rfl (hst ▸ shrinks_advance st rfl le_rfl) rfl rfl
  | sendReturn c st hst hcb hn =>
    refine h.shrink rfl (shrinks_of_subset fun c hc ↦ ?_) rfl rfl
    exact hst ▸ List.mem_cons_of_mem _ hc

theorem nonOverlapping_cons {e : BusEvent τ κ} {h : List (BusEvent τ κ)} :
    NonOverlapping (e :: h) ↔ NonOverlapping h ∧
      ∀ t frame s, e = ⟨t, .send (some frame)⟩ → frame.dlc.toNat ≤ canMaxDlc →
        Run step canHalInit h s → Quiet s := by
  constructor
  · intro hn
    refine ⟨fun t frame h₁ s₁ hsuf ↦ hn t frame h₁ s₁ (hsuf.trans (List.suffix_cons e h)), ?_⟩
    intro t frame s he
    exact hn t frame h s (he ▸ List.suffix_rfl)
  · intro hn t frame h₁ s₁ hsuf
    rcases cons_suffix_cons_iff.mp hsuf with ⟨he, rfl⟩ | hsuf
    · exact hn.2 t frame s₁ he.symm
    · exact hn.1 t frame h₁ s₁ hsuf

theorem nonOverlapping_append {k h : List (BusEvent τ κ)}
    (hk : ∀ e ∈ k, ∀ frame, e.action ≠ .send (some frame)) (hn : NonOverlapping h) :
    NonOverlapping (k ++ h) := by
  induction k with
  | nil => exact hn
  | cons e k ih =>
    obtain ⟨he, hk⟩ := List.forall_mem_cons.mp hk
    refine nonOverlapping_cons.mpr ⟨ih hk, fun t frame s heq ↦ ?_⟩
    exact absurd (congrArg BusEvent.action heq) (he frame)

theorem run_ordered {h : List (BusEvent τ κ)} {s : VirtualBus τ κ}
    (hr : Run step canHalInit h s) (hn : NonOverlapping h) : Ordered s := by
  induction hr with
  | start => exact init_ordered
  | @next h s s' e hs he ih =>
    obtain ⟨hbefore, hquiet⟩ := nonOverlapping_cons.mp hn
    obtain ⟨t, a⟩ := e
    refine (ih hbefore).step (fun frame ha hf ↦ ?_) he
    exact hquiet t frame s (ha ▸ rfl) hf hs

/-- As long as every accepted frame is sent while no frame with two or more receivers
is still being delivered, all subscribers hear the frames in one order. -/
theorem broadcast_ordered {h : List (BusEvent τ κ)} {s : VirtualBus τ κ}
    (hr : Run step canHalInit h s) (hn : NonOverlapping h) : TotallyOrdered s.receptions :=
  (run_ordered hr hn).totallyOrdered

def emptyFrame : CanFrame := ⟨canIdBmsStatus, 0, Vector.replicate _ 0⟩

def bothSubscribed : List (BusEvent Bool Bool) :=
  [⟨false, .insert⟩, ⟨false, .subscribe (some true)⟩,
    ⟨false, .insert⟩, ⟨false, .subscribe (some false)⟩]

def sendTo (t : Bool) (h : List (BusEvent Bool Bool)) : List (BusEvent Bool Bool) :=
  ⟨t, .send (some emptyFrame)⟩ :: h

def bothCallbacks (t : Bool) : List (BusEvent Bool Bool) :=
  [⟨t, .sendReturn⟩, ⟨t, .callbackReturn⟩, ⟨t, .deliver⟩, ⟨t, .callbackReturn⟩, ⟨t, .deliver⟩]

/-- The thread `true` sends while the thread `false` is between its two callbacks. -/
def overtaking : List (BusEvent Bool Bool) :=
  ⟨false, .deliver⟩ :: bothCallbacks true ++
    sendTo true (⟨false, .callbackReturn⟩ :: ⟨false, .deliver⟩ :: sendTo false bothSubscribed)

theorem overtaking_disordered : ∃ s, Run step canHalInit overtaking s ∧
    ¬ TotallyOrdered s.receptions := by
  have hv : (replay step canHalInit overtaking).map
      (fun s ↦ (heard s.receptions 0, heard s.receptions 1)) = some ([1, 0], [0, 1]) := by
    decide +kernel
  obtain ⟨s, hs, hheard⟩ := exists_run _ hv
  obtain ⟨h₀, h₁⟩ := Prod.mk.inj hheard
  refine ⟨s, hs, fun hord ↦ hord 0 1 1 0 (by decide) (by decide) ?_ ?_⟩
  · rw [h₀]
  · rw [h₁]

def oneByOne : List (BusEvent Bool Bool) :=
  bothCallbacks true ++ sendTo true (bothCallbacks false ++ sendTo false bothSubscribed)

theorem broadcast_ordered_one_by_one : ∃ s, Run step canHalInit oneByOne s ∧
    s.receptions = [(1, 1), (1, 0), (0, 1), (0, 0)] ∧ TotallyOrdered s.receptions := by
  have hv : (replay step canHalInit oneByOne).map (·.receptions) =
      some [(1, 1), (1, 0), (0, 1), (0, 0)] := by decide +kernel
  obtain ⟨s, hs, hlog⟩ := exists_run _ hv
  have hidle {h : List (BusEvent Bool Bool)} (hh : (replay step canHalInit h).map
      (fun s ↦ (s.stack false).length + (s.stack true).length) = some 0)
      (s : VirtualBus Bool Bool) (hr : Run step canHalInit h s) : Quiet s := by
    rw [run_iff_replay.mp hr, Option.map_some, Option.some.injEq, Nat.add_eq_zero_iff] at hh
    refine quiet_of_idle fun t ↦ ?_
    cases t
    · exact List.eq_nil_of_length_eq_zero hh.1
    · exact List.eq_nil_of_length_eq_zero hh.2
  have hsend {t : Bool} {h : List (BusEvent Bool Bool)} (hn : NonOverlapping h)
      (hh : (replay step canHalInit h).map
        (fun s ↦ (s.stack false).length + (s.stack true).length) = some 0) :
      NonOverlapping (bothCallbacks t ++ sendTo t h) := by
    refine nonOverlapping_append (by simp [bothCallbacks]) ?_
    exact nonOverlapping_cons.mpr ⟨hn, fun _ _ s _ _ ↦ hidle hh s⟩
  have hstart : NonOverlapping (bothSubscribed ++ []) := by
    refine nonOverlapping_append (by simp [bothSubscribed]) ?_
    intro t frame h₁ s₁ hsuf
    simp at hsuf
  refine ⟨s, hs, hlog, broadcast_ordered hs ?_⟩
  exact hsend (hsend hstart (by decide +kernel)) (by decide +kernel)

end VirtualBus

end BmsFirmware
