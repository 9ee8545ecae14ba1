import BmsFirmware.OsalQueue

namespace BmsFirmware

open Lib.History Lib.Ring

namespace OsalQueue

variable {itemSize : ℕ}

def slot (q : OsalQueue itemSize) (s : ℕ) : Vector UInt8 itemSize :=
  Vector.ofFn fun i ↦ q.buf (s * itemSize + i)

def contents (q : OsalQueue itemSize) : List (Vector UInt8 itemSize) :=
  Lib.Ring.contents q.slot q.capacity q.head q.count

structure Valid (q : OsalQueue itemSize) : Prop where
  count_le : q.count ≤ q.capacity
  head_lt : 0 < q.capacity → q.head < q.capacity

theorem contents_length (q : OsalQueue itemSize) : q.contents.length = q.count :=
  Lib.Ring.contents_length _ _ _ _

theorem modulo_of_pos {b : ℕ} (hb : 0 < b) (a : ℕ) : modulo a b = some (a % b) :=
  if_neg hb.ne'

theorem slot_fits {q : OsalQueue itemSize} {s : ℕ} (hs : s < q.capacity) :
    s * itemSize + itemSize ≤ q.capacity * itemSize := by
  rw [← Nat.succ_mul]
  exact Nat.mul_le_mul_right itemSize hs

theorem memcpyOut_slot {q : OsalQueue itemSize} {s : ℕ} (hs : s < q.capacity) :
    q.memcpyOut (s * itemSize) = some (q.slot s) :=
  if_pos (slot_fits hs)

theorem slot_disjoint {s s' i : ℕ} (hs : s' ≠ s) (hi : i < itemSize) :
    ¬ (s * itemSize ≤ s' * itemSize + i ∧ s' * itemSize + i < s * itemSize + itemSize) := by
  rcases Nat.lt_or_gt_of_ne hs with hlt | hgt
  · have hle := Nat.mul_le_mul_right itemSize hlt
    rw [Nat.succ_mul] at hle
    omega
  · have hle := Nat.mul_le_mul_right itemSize hgt
    rw [Nat.succ_mul] at hle
    omega

/-- Writing a slot changes that slot and no other one. -/
theorem memcpyIn_slot {q : OsalQueue itemSize} {s : ℕ} (hs : s < q.capacity)
    (item : Vector UInt8 itemSize) : ∃ buf, q.memcpyIn (s * itemSize) item = some buf ∧
      ∀ s', slot { q with buf := buf } s' = if s' = s then item else q.slot s' := by
  refine ⟨_, if_pos (slot_fits hs), fun s' ↦ ?_⟩
  ext i hi
  by_cases hsame : s' = s
  · subst hsame
    have hin : s' * itemSize ≤ s' * itemSize + i ∧
        s' * itemSize + i < s' * itemSize + itemSize := by omega
    rw [if_pos rfl]
    simp only [slot, Vector.getElem_ofFn, dif_pos hin, Nat.add_sub_cancel_left]
    rfl
  · rw [if_neg hsame]
    simp only [slot, Vector.getElem_ofFn, dif_neg (slot_disjoint hsame hi)]

theorem put_spec {q : OsalQueue itemSize} (hq : q.Valid) (hroom : q.count < q.capacity)
    (item : Vector UInt8 itemSize) : ∃ q', q.put item = some q' ∧ q'.Valid ∧
      q'.capacity = q.capacity ∧ q'.count = q.count + 1 ∧ q'.contents = q.contents ++ [item] := by
  have hcap : 0 < q.capacity := Nat.zero_lt_of_lt hroom
  obtain ⟨buf, hbuf, hslot⟩ := memcpyIn_slot (Nat.mod_lt (q.head + q.count) hcap) item
  refine ⟨{ q with buf := buf, count := q.count + 1 }, ?_, ⟨hroom, hq.head_lt⟩, rfl, rfl, ?_⟩
  · simp only [put, modulo_of_pos hcap, hbuf, Option.bind_eq_bind, Option.bind_some, pure]
  · have hsame (s' : ℕ) (hs' : s' ≠ (q.head + q.count) % q.capacity) :
        slot { q with buf := buf } s' = q.slot s' := (hslot s').trans (if_neg hs')
    have hput := contents_put hroom hsame
    rw [hslot, if_pos rfl] at hput
    exact hput

theorem take_spec {q : OsalQueue itemSize} (hq : q.Valid) (hsome : 0 < q.count) :
    ∃ item q', q.take = some (item, q') ∧ q'.Valid ∧ q'.capacity = q.capacity ∧
      q'.count + 1 = q.count ∧ q.contents = item :: q'.contents := by
  have hcap : 0 < q.capacity := hsome.trans_le hq.count_le
  have hcount : q.count - 1 + 1 = q.count := Nat.sub_add_cancel hsome
  refine ⟨q.slot q.head, { q with head := (q.head + 1) % q.capacity, count := q.count - 1 },
    ?_, ⟨(Nat.sub_le _ _).trans hq.count_le, fun _ ↦ Nat.mod_lt _ hcap⟩, rfl, hcount, ?_⟩
  · simp only [take, memcpyOut_slot (hq.head_lt hcap), modulo_of_pos hcap, Option.bind_eq_bind,
      Option.bind_some, pure]
  · have htake := contents_take q.slot (hq.head_lt hcap) (q.count - 1)
    rw [hcount] at htake
    exact htake

def offered : QueueCall itemSize → QueueAction itemSize → Option (Vector UInt8 itemSize)
  | .idle, .osalQueueSend item _ _ => some item
  | .sending item _, .timedwait _ _ => some item
  | _, _ => none

/-- All that a pass can do to a valid queue: `Passes q c a q' c' r` leads from the queue `q`
and the caller's position `c` to `q'` and `c'` and ends with `r`. -/
inductive Passes (q : OsalQueue itemSize) (c : QueueCall itemSize) (a : QueueAction itemSize) :
    OsalQueue itemSize → QueueCall itemSize → QueueResult itemSize → Prop
  | full (item : Vector UInt8 itemSize) (deadline : Timespec) :
      offered c a = some item → q.count = q.capacity →
      Passes q c a q (.sending item deadline) .waits
  | empty (deadline : Timespec) : q.count = 0 → Passes q c a q (.receiving deadline) .waits
  | sent {q' : OsalQueue itemSize} (item : Vector UInt8 itemSize) :
      offered c a = some item → q.count < q.capacity → q'.Valid → q'.capacity = q.capacity →
      q'.count = q.count + 1 → q'.contents = q.contents ++ [item] →
      Passes q c a q' .idle (.sent item)
  | received {q' : OsalQueue itemSize} (item : Vector UInt8 itemSize) :
      q'.Valid → q'.capacity = q.capacity → q'.count + 1 = q.count →
      q.contents = item :: q'.contents → Passes q c a q' .idle (.received item)
  | sendTimedOut (item : Vector UInt8 itemSize) (deadline : Timespec) :
      c = .sending item deadline → Passes q c a q .idle .sendTimedOut
  | receiveTimedOut (deadline : Timespec) :
      c = .receiving deadline → Passes q c a q .idle .receiveTimedOut

variable {q q' : OsalQueue itemSize} {c c' : QueueCall itemSize} {a : QueueAction itemSize}
  {r : QueueResult itemSize}

theorem sendPass_passes (hq : q.Valid) {item : Vector UInt8 itemSize} (deadline : Timespec)
    (hoffer : offered c a = some item) (h : q.sendPass item deadline = (q', c', r)) :
    Passes q c a q' c' r := by
  unfold sendPass at h
  by_cases hfull : q.count = q.capacity
  · rw [if_pos hfull] at h
    cases h
    exact .full item deadline hoffer hfull
  · have hroom : q.count < q.capacity := Nat.lt_of_le_of_ne hq.count_le hfull
    obtain ⟨q₁, hput, hvalid, hcap, hcount, hcontents⟩ := put_spec hq hroom item
    rw [if_neg hfull, hput] at h
    cases h
    exact .sent item hoffer hroom hvalid hcap hcount hcontents

theorem receivePass_passes (hq : q.Valid) (deadline : Timespec)
    (h : q.receivePass deadline = (q', c', r)) : Passes q c a q' c' r := by
  unfold receivePass at h
  by_cases hempty : q.count = 0
  · rw [if_pos hempty] at h
    cases h
    exact .empty deadline hempty
  · obtain ⟨item, q₁, htake, hvalid, hcap, hcount, hcontents⟩ :=
      take_spec hq (Nat.pos_of_ne_zero hempty)
    rw [if_neg hempty, htake] at h
    cases h
    exact .received item hvalid hcap hcount hcontents

theorem pass_passes (hq : q.Valid) (h : q.pass c a = some (q', c', r)) :
    Passes q c a q' c' r := by
  cases c with
  | idle =>
    cases a with
    | osalQueueSend item timeoutMs now => exact sendPass_passes hq _ rfl (Option.some.inj h)
    | osalQueueReceive timeoutMs now => exact receivePass_passes hq _ (Option.some.inj h)
    | timedwait etimedout now => cases h
  | sending item deadline =>
    cases a with
    | osalQueueSend item' timeoutMs now => cases h
    | osalQueueReceive timeoutMs now => cases h
    | timedwait etimedout now =>
      cases etimedout with
      | false => exact sendPass_passes hq deadline rfl (Option.some.inj h)
      | true =>
        obtain ⟨-, heq⟩ := Option.ite_none_right_eq_some.mp h
        cases heq
        exact .sendTimedOut item deadline rfl
  | receiving deadline =>
    cases a with
    | osalQueueSend item' timeoutMs now => cases h
    | osalQueueReceive timeoutMs now => cases h
    | timedwait etimedout now =>
      cases etimedout with
      | false => exact receivePass_passes hq deadline (Option.some.inj h)
      | true =>
        obtain ⟨-, heq⟩ := Option.ite_none_right_eq_some.mp h
        cases heq
        exact .receiveTimedOut deadline rfl

theorem Passes.valid (h : Passes q c a q' c' r) (hq : q.Valid) : q'.Valid := by
  cases h <;> assumption

theorem Passes.capacity (h : Passes q c a q' c' r) : q'.capacity = q.capacity := by
  cases h <;> first | rfl | assumption

theorem Passes.offered_of_sending {item : Vector UInt8 itemSize} {deadline : Timespec}
    (h : Passes q c a q' (.sending item deadline) r) : offered c a = some item := by
  cases h with
  | full _ _ hoffer _ => exact hoffer

theorem Passes.offered_of_sent {item : Vector UInt8 itemSize}
    (h : Passes q c a q' c' (.sent item)) : offered c a = some item := by
  cases h with
  | sent _ hoffer => exact hoffer

theorem Passes.of_sendTimedOut (h : Passes q c a q' c' .sendTimedOut) :
    ∃ item deadline, c = .sending item deadline := by
  cases h with
  | sendTimedOut item deadline hc => exact ⟨item, deadline, hc⟩

theorem Passes.of_receiveTimedOut (h : Passes q c a q' c' .receiveTimedOut) :
    ∃ deadline, c = .receiving deadline := by
  cases h with
  | receiveTimedOut deadline hc => exact ⟨deadline, hc⟩

end OsalQueue

def QueueResult.operation {itemSize : ℕ} : QueueResult itemSize → Op (Vector UInt8 itemSize)
  | .sent item => .put item
  | .received item => .take item
  | _ => .none

def QueueResult.IsTimeout {itemSize : ℕ} (r : QueueResult itemSize) : Prop :=
  r = .sendTimedOut ∨ r = .receiveTimedOut

theorem OsalQueue.Passes.fifo {itemSize : ℕ} {q q' : OsalQueue itemSize}
    {c c' : QueueCall itemSize} {a : QueueAction itemSize} {r : QueueResult itemSize}
    (h : Passes q c a q' c' r) :
    r ≠ .undefined ∧ FifoStep q.capacity q.contents r.operation q'.contents := by
  cases h with
  | full item deadline => exact ⟨nofun, .none _⟩
  | empty deadline => exact ⟨nofun, .none _⟩
  | sent item _ hroom _ _ _ hcontents =>
    refine ⟨nofun, ?_⟩
    rw [hcontents]
    exact .put item (by rw [contents_length]; exact hroom)
  | received item _ _ _ hcontents =>
    refine ⟨nofun, ?_⟩
    rw [hcontents]
    exact .take item _
  | sendTimedOut => exact ⟨nofun, .none _⟩
  | receiveTimedOut => exact ⟨nofun, .none _⟩

def QueueAction.item? {itemSize : ℕ} : QueueAction itemSize → Option (Vector UInt8 itemSize)
  | .osalQueueSend item _ _ => some item
  | _ => none

namespace QueueUsers

open OsalQueue

variable {τ : Type} {itemSize capacity : ℕ} {h : List (QueueEvent τ itemSize)}
  {s s' : QueueUsers τ itemSize} {e : QueueEvent τ itemSize}

def operations (h : List (QueueEvent τ itemSize)) : List (Op (Vector UInt8 itemSize)) :=
  h.map fun e ↦ e.result.operation

variable [DecidableEq τ]

def lastItem (t : τ) (h : List (QueueEvent τ itemSize)) : Option (Vector UInt8 itemSize) :=
  h.findSome? fun e ↦ if e.thread = t then e.action.item? else none

theorem step_passes (hq : s.queue.Valid) (he : s.step e = some s') : ∃ c',
    Passes s.queue (s.call e.thread) e.action s'.queue c' e.result ∧
      s'.call = Function.update s.call e.thread c' := by
  unfold step at he
  split at he
  · next q c' r hpass =>
    obtain ⟨hres, heq⟩ := Option.ite_none_right_eq_some.mp he
    cases heq
    exact ⟨c', hres ▸ pass_passes hq hpass, rfl⟩
  · cases he

theorem lastItem_of_ne {t : τ} (ht : t ≠ e.thread) : lastItem t (e :: h) = lastItem t h := by
  rw [lastItem, List.findSome?_cons, if_neg ht.symm]
  rfl

def Remembers (h : List (QueueEvent τ itemSize)) (s : QueueUsers τ itemSize) : Prop :=
  ∀ t item deadline, s.call t = .sending item deadline → lastItem t h = some item

theorem Remembers.offered {item : Vector UInt8 itemSize} (hs : Remembers h s)
    (ho : OsalQueue.offered (s.call e.thread) e.action = some item) :
    lastItem e.thread (e :: h) = some item := by
  rw [lastItem, List.findSome?_cons, if_pos rfl]
  generalize hc : s.call e.thread = c at ho
  cases c with
  | idle =>
    cases ha : e.action with
    | osalQueueSend item' timeoutMs now =>
      rw [ha] at ho
      exact ho
    | osalQueueReceive timeoutMs now =>
      rw [ha] at ho
      cases ho
    | timedwait etimedout now =>
      rw [ha] at ho
      cases ho
  | sending item' deadline =>
    cases ha : e.action with
    | osalQueueSend item'' timeoutMs now =>
      rw [ha] at ho
      cases ho
    | osalQueueReceive timeoutMs now =>
      rw [ha] at ho
      cases ho
    | timedwait etimedout now =>
      rw [ha] at ho
      cases ho
      exact hs e.thread item deadline hc
  | receiving deadline => cases ho

structure Sound (capacity : ℕ) (h : List (QueueEvent τ itemSize)) (s : QueueUsers τ itemSize) :
    Prop where
  valid : s.queue.Valid
  capacity_eq : s.queue.capacity = capacity
  fifo : puts (operations h) = takes (operations h) ++ s.queue.contents
  remembers : Remembers h s

theorem init_sound : Sound capacity [] (init τ itemSize capacity) where
  valid := ⟨Nat.zero_le _, id⟩
  capacity_eq := rfl
  fifo := rfl
  remembers := fun t item deadline ht ↦ by
    have hidle : QueueCall.idle = .sending item deadline := ht
    cases hidle

theorem Sound.step (hs : Sound capacity h s) (he : s.step e = some s') :
    Sound capacity (e :: h) s' := by
  obtain ⟨c', hpass, hcall⟩ := step_passes hs.valid he
  refine ⟨hpass.valid hs.valid, hpass.capacity.trans hs.capacity_eq,
    hpass.fifo.2.conserves hs.fifo, fun t item deadline ht ↦ ?_⟩
  by_cases hte : t = e.thread
  · subst hte
    rw [hcall, Function.update_self] at ht
    subst ht
    exact hs.remembers.offered (hpass.offered_of_sending)
  · rw [hcall, Function.update_of_ne hte] at ht
    rw [lastItem_of_ne hte]
    exact hs.remembers t item deadline ht

theorem run_sound (hr : Run QueueUsers.step (init τ itemSize capacity) h s) :
    Sound capacity h s :=
  hr.history_invariant init_sound fun _ _ _ _ hs he ↦ hs.step he

/-- The queue is a bounded FIFO in every run of any number of threads: its indices stay in
range, no pass is undefined, and every pass does to the list of contents what it reports. -/
theorem queue_is_fifo (hr : Run QueueUsers.step (init τ itemSize capacity) h s) :
    (s.queue.count ≤ capacity ∧ (0 < capacity → s.queue.head < capacity)) ∧
    s.queue.contents.length = s.queue.count ∧
    puts (operations h) = takes (operations h) ++ s.queue.contents ∧
    ∀ e s', s.step e = some s' → e.result ≠ .undefined ∧
      FifoStep capacity s.queue.contents e.result.operation s'.queue.contents ∧
      ∀ item, e.result = .sent item → lastItem e.thread (e :: h) = some item := by
  have hs := run_sound hr
  have hcap := hs.capacity_eq
  refine ⟨⟨hcap ▸ hs.valid.count_le, hcap ▸ hs.valid.head_lt⟩, contents_length _, hs.fifo,
    fun e s' he ↦ ?_⟩
  obtain ⟨c', hpass, -⟩ := step_passes hs.valid he
  obtain ⟨hdefined, hfifo⟩ := hpass.fifo
  refine ⟨hdefined, hcap ▸ hfifo, fun item hitem ↦ ?_⟩
  rw [hitem] at hpass
  exact hs.remembers.offered hpass.offered_of_sent

theorem atMs_nsec_lt (ms : ℕ) : ((ms % 1000 * 1000000 : ℕ) : ℤ) < 1000000000 := by
  omega

def atMs (ms : ℕ) : Timespec where
  tvSec := (ms / 1000 : ℕ)
  tvNsec := (ms % 1000 * 1000000 : ℕ)
  nsec_nonneg := Int.natCast_nonneg _
  nsec_lt := atMs_nsec_lt ms

/-- A full queue of one item: a sender waits for at most 10 ms, the item is taken after 9 ms,
and the sender gets the lock again after 11 ms with its wait timed out. -/
def lateWake : List (QueueEvent Bool 1) :=
  [⟨true, .timedwait true (atMs 11), .sendTimedOut⟩,
    ⟨false, .osalQueueReceive 0 (atMs 9), .received #v[1]⟩,
    ⟨true, .osalQueueSend #v[2] 10 (atMs 0), .waits⟩,
    ⟨false, .osalQueueSend #v[1] 0 (atMs 0), .sent #v[1]⟩]

def onTime : List (QueueEvent Bool 1) :=
  [⟨true, .timedwait true (atMs 11), .sendTimedOut⟩,
    ⟨true, .osalQueueSend #v[2] 10 (atMs 0), .waits⟩,
    ⟨false, .osalQueueSend #v[1] 0 (atMs 0), .sent #v[1]⟩]

theorem queue_is_fifo_late_wake : ∃ s, Run QueueUsers.step (init Bool 1 1) lateWake s ∧
    puts (operations lateWake) = takes (operations lateWake) ++ s.queue.contents := by
  have hreplay : (replay QueueUsers.step (init Bool 1 1) lateWake).map (·.queue.count) =
      some 0 := by decide
  obtain ⟨s, hr, -⟩ := exists_run _ hreplay
  exact ⟨s, hr, (queue_is_fifo hr).2.2.1⟩

end QueueUsers

end BmsFirmware
