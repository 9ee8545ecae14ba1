import BmsFirmware.Lib.CondVar
import BmsFirmware.QueueFifo

namespace BmsFirmware

open Lib Lib.History

/-- A pass of a thread, with those that its `pthread_cond_signal` lets go, or the end of a
wait, early or at its deadline. -/
inductive WakeEvent (τ : Type) (itemSize : ℕ) where
  | pass (e : QueueEvent τ itemSize) (woken : Finset τ)
  | leave (t : τ)

structure QueueWaiters (τ : Type) (itemSize : ℕ) where
  users : QueueUsers τ itemSize
  notEmpty : CondVar τ
  notFull : CondVar τ

namespace QueueWaiters

variable {τ : Type} {itemSize : ℕ}

def init (τ : Type) (itemSize capacity : ℕ) : QueueWaiters τ itemSize where
  users := .init τ itemSize capacity
  notEmpty := .init τ
  notFull := .init τ

variable [DecidableEq τ]

/-- The waits and signals of a pass that leads to `users`. A signalled wait does not end
with `ETIMEDOUT`. -/
def react (s : QueueWaiters τ itemSize) (e : QueueEvent τ itemSize) (woken : Finset τ)
    (users : QueueUsers τ itemSize) : Option (QueueWaiters τ itemSize) :=
  match e.result with
  | .waits =>
    match users.call e.thread with
    | .idle => none
    | .sending _ _ => some ⟨users, s.notEmpty, s.notFull.block e.thread⟩
    | .receiving _ => some ⟨users, s.notEmpty.block e.thread, s.notFull⟩
  | .sent _ =>
    if s.notEmpty.Signals woken then
      some ⟨users, s.notEmpty.signal woken, s.notFull.resume e.thread⟩
    else none
  | .received _ =>
    if s.notFull.Signals woken then
      some ⟨users, s.notEmpty.resume e.thread, s.notFull.signal woken⟩
    else none
  | .sendTimedOut =>
    if e.thread ∈ s.notFull.notified then none else some ⟨users, s.notEmpty, s.notFull⟩
  | .receiveTimedOut =>
    if e.thread ∈ s.notEmpty.notified then none else some ⟨users, s.notEmpty, s.notFull⟩
  | .undefined => some ⟨users, s.notEmpty, s.notFull⟩

def step (s : QueueWaiters τ itemSize) : WakeEvent τ itemSize → Option (QueueWaiters τ itemSize)
  | .pass e woken =>
    if e.thread ∈ s.notEmpty.blocked ∪ s.notFull.blocked then none
    else (s.users.step e).bind (s.react e woken)
  | .leave t =>
    if t ∈ s.notEmpty.blocked ∪ s.notFull.blocked then
      some { s with notEmpty := s.notEmpty.leave t, notFull := s.notFull.leave t }
    else none

end QueueWaiters

def WakeEvent.pass? {τ : Type} {itemSize : ℕ} :
    WakeEvent τ itemSize → Option (QueueEvent τ itemSize)
  | .pass e _ => some e
  | .leave _ => none

namespace QueueWaiters

open OsalQueue

variable {τ : Type} [DecidableEq τ] {itemSize capacity : ℕ} {h : List (WakeEvent τ itemSize)}
  {s s' : QueueWaiters τ itemSize} {d : WakeEvent τ itemSize}

def passes (h : List (WakeEvent τ itemSize)) : List (QueueEvent τ itemSize) :=
  h.filterMap WakeEvent.pass?

theorem react_users {e : QueueEvent τ itemSize} {woken : Finset τ} {users : QueueUsers τ itemSize}
    (hr : s.react e woken users = some s') : s'.users = users := by
  unfold react at hr
  split at hr
  · split at hr
    · cases hr
    · cases hr
      rfl
    · cases hr
      rfl
  · obtain ⟨-, hs⟩ := Option.ite_none_right_eq_some.mp hr
    cases hs
    rfl
  · obtain ⟨-, hs⟩ := Option.ite_none_right_eq_some.mp hr
    cases hs
    rfl
  · obtain ⟨-, hs⟩ := Option.ite_none_left_eq_some.mp hr
    cases hs
    rfl
  · obtain ⟨-, hs⟩ := Option.ite_none_left_eq_some.mp hr
    cases hs
    rfl
  · cases hr
    rfl

/-- What a step does: a pass of the queue with its reaction, or the end of a wait. -/
theorem step_cases (hd : s.step d = some s') :
    (∃ e woken users, d = .pass e woken ∧ e.thread ∉ s.notEmpty.blocked ∧
      e.thread ∉ s.notFull.blocked ∧ s.users.step e = some users ∧
      s.react e woken users = some s') ∨
    ∃ t, d = .leave t ∧
      s' = { s with notEmpty := s.notEmpty.leave t, notFull := s.notFull.leave t } := by
  cases d with
  | pass e woken =>
    obtain ⟨hfree, hstep⟩ := Option.ite_none_left_eq_some.mp hd
    obtain ⟨users, husers, hreact⟩ := Option.bind_eq_some_iff.mp hstep
    rw [Finset.mem_union, not_or] at hfree
    exact .inl ⟨e, woken, users, rfl, hfree.1, hfree.2, husers, hreact⟩
  | leave t =>
    obtain ⟨-, hs⟩ := Option.ite_none_right_eq_some.mp hd
    exact .inr ⟨t, rfl, (Option.some.inj hs).symm⟩

/-- The queue knows nothing of its waiters: their runs are runs of its users. -/
theorem run_users (hr : Run step (init τ itemSize capacity) h s) :
    Run QueueUsers.step (.init τ itemSize capacity) (passes h) s.users := by
  refine hr.history_invariant (R := fun h s ↦
    Run QueueUsers.step (.init τ itemSize capacity) (passes h) s.users) .start
    fun h d s s' ih hd ↦ ?_
  rcases step_cases hd with ⟨e, woken, users, rfl, -, -, husers, hreact⟩ | ⟨t, rfl, rfl⟩
  · rw [react_users hreact]
    exact ih.next husers
  · exact ih

/-- Waiters are in the calls that wait, and where some are held back, enough others are on
their way for all that is there to take or to fill. -/
structure Attended (s : QueueWaiters τ itemSize) : Prop where
  receiving : ∀ t ∈ s.notEmpty.waiting, ∃ deadline, s.users.call t = .receiving deadline
  sending : ∀ t ∈ s.notFull.waiting, ∃ item deadline, s.users.call t = .sending item deadline
  items : s.notEmpty.Covers s.users.queue.count
  room : s.notFull.Covers (s.users.queue.capacity - s.users.queue.count)

/-- A sender that waits neither takes an item nor goes to wait for one. -/
theorem pass_of_sending {q q' : OsalQueue itemSize} {item : Vector UInt8 itemSize}
    {deadline : Timespec} {a : QueueAction itemSize} {c' : QueueCall itemSize}
    {r : QueueResult itemSize} (hpass : q.pass (.sending item deadline) a = some (q', c', r)) :
    (∀ x, r ≠ .received x) ∧ ∀ d, c' ≠ .receiving d := by
  cases a with
  | osalQueueSend item' timeoutMs now => cases hpass
  | osalQueueReceive timeoutMs now => cases hpass
  | timedwait etimedout now =>
    cases etimedout with
    | false =>
      have hsend : q.sendPass item deadline = (q', c', r) := Option.some.inj hpass
      unfold sendPass at hsend
      split_ifs at hsend
      · cases hsend
        exact ⟨by simp, by simp⟩
      · cases hput : q.put item with
        | none =>
          rw [hput] at hsend
          cases hsend
          exact ⟨by simp, by simp⟩
        | some q₁ =>
          rw [hput] at hsend
          cases hsend
          exact ⟨by simp, by simp⟩
    | true =>
      obtain ⟨-, heq⟩ := Option.ite_none_right_eq_some.mp hpass
      cases heq
      exact ⟨by simp, by simp⟩

theorem step_of_sending {u u' : QueueUsers τ itemSize} {e : QueueEvent τ itemSize}
    {item : Vector UInt8 itemSize} {deadline : Timespec} (he : u.step e = some u')
    (hc : u.call e.thread = .sending item deadline) :
    (∀ x, e.result ≠ .received x) ∧ ∀ d, u'.call e.thread ≠ .receiving d := by
  unfold QueueUsers.step at he
  split at he
  · next q c' r hpass =>
    obtain ⟨hres, heq⟩ := Option.ite_none_right_eq_some.mp he
    cases heq
    rw [hc] at hpass
    obtain ⟨hresult, hcall⟩ := pass_of_sending hpass
    have hself : Function.update u.call e.thread c' e.thread = c' := Function.update_self ..
    exact ⟨hres ▸ hresult, fun d hd ↦ hcall d (hself.symm.trans hd)⟩
  · cases he

namespace Attended

variable {t : τ}

theorem not_receiving (hs : Attended s) (hc : ∀ d, s.users.call t ≠ .receiving d) :
    t ∉ s.notEmpty.waiting := by
  intro ht
  obtain ⟨d, hd⟩ := hs.receiving t ht
  exact hc d hd

theorem not_sending (hs : Attended s) (hc : ∀ item d, s.users.call t ≠ .sending item d) :
    t ∉ s.notFull.waiting := by
  intro ht
  obtain ⟨item, d, hd⟩ := hs.sending t ht
  exact hc item d hd

/-- A pass of `t` moves no other waiter. -/
theorem pass (hs : Attended s) {users : QueueUsers τ itemSize} {c' : QueueCall itemSize}
    (hcall : users.call = Function.update s.users.call t c') {notEmpty notFull : CondVar τ}
    (hreceiving : ∀ u ∈ notEmpty.waiting, (u = t ∧ ∃ d, c' = .receiving d) ∨
      u ≠ t ∧ u ∈ s.notEmpty.waiting)
    (hsending : ∀ u ∈ notFull.waiting, (u = t ∧ ∃ item d, c' = .sending item d) ∨
      u ≠ t ∧ u ∈ s.notFull.waiting)
    (hitems : notEmpty.Covers users.queue.count)
    (hroom : notFull.Covers (users.queue.capacity - users.queue.count)) :
    Attended ⟨users, notEmpty, notFull⟩ := by
  refine ⟨fun u hu ↦ ?_, fun u hu ↦ ?_, hitems, hroom⟩
  · rcases hreceiving u hu with ⟨rfl, hc⟩ | ⟨hne, hold⟩
    · simpa [hcall] using hc
    · simpa [hcall, Function.update_of_ne hne] using hs.receiving u hold
  · rcases hsending u hu with ⟨rfl, hc⟩ | ⟨hne, hold⟩
    · simpa [hcall] using hc
    · simpa [hcall, Function.update_of_ne hne] using hs.sending u hold

theorem leave (hs : Attended s) (t : τ) :
    Attended { s with notEmpty := s.notEmpty.leave t, notFull := s.notFull.leave t } :=
  ⟨fun u hu ↦ hs.receiving u (CondVar.mem_waiting_leave hu),
    fun u hu ↦ hs.sending u (CondVar.mem_waiting_leave hu), hs.items.leave, hs.room.leave⟩

/-- The reaction to a pass keeps the waiters attended. -/
theorem react (hs : Attended s) (hq : s.users.queue.Valid) {e : QueueEvent τ itemSize}
    {woken : Finset τ} {users : QueueUsers τ itemSize} (hE : e.thread ∉ s.notEmpty.blocked)
    (hF : e.thread ∉ s.notFull.blocked) (hu : s.users.step e = some users)
    (hr : s.react e woken users = some s') : Attended s' := by
  obtain ⟨c', hpass, hcall⟩ := QueueUsers.step_passes hq hu
  have hsender (item : Vector UInt8 itemSize) (d : Timespec)
      (hc : s.users.call e.thread = .sending item d) := step_of_sending hu hc
  obtain ⟨t, a, r⟩ := e
  obtain ⟨q', call⟩ := users
  simp only at hpass hcall hE hF hsender
  subst hcall
  have hoffers (item : Vector UInt8 itemSize)
      (ho : OsalQueue.offered (s.users.call t) a = some item) : t ∉ s.notEmpty.waiting := by
    refine hs.not_receiving fun d hd ↦ ?_
    rw [hd] at ho
    cases ho
  have htakes (h : (∃ x, r = .received x) ∨ ∃ d, c' = .receiving d) : t ∉ s.notFull.waiting := by
    refine hs.not_sending fun item d hc ↦ ?_
    obtain ⟨hresult, hgoes⟩ := hsender item d hc
    rcases h with ⟨x, rfl⟩ | ⟨d', rfl⟩
    · exact hresult x rfl
    · exact hgoes d' (Function.update_self ..)
  have hold {c : CondVar τ} (ht : t ∉ c.waiting) (u : τ) (h : u ∈ c.waiting) :
      u ≠ t ∧ u ∈ c.waiting := ⟨fun he ↦ ht (he ▸ h), h⟩
  have hcount_le := hq.count_le
  cases hpass with
  | full item deadline ho hfull =>
    simp only [QueueWaiters.react, Function.update_self, Option.some.injEq] at hr
    subst hr
    refine hs.pass rfl (fun u h ↦ .inr (hold (hoffers item ho) u h)) (fun u h ↦ ?_) hs.items ?_
    · by_cases hut : u = t
      · exact .inl ⟨hut, item, deadline, rfl⟩
      · exact .inr ⟨hut, (CondVar.mem_waiting_block h).resolve_left hut⟩
    · show (s.notFull.block t).Covers (s.users.queue.capacity - s.users.queue.count)
      rw [hfull, Nat.sub_self]
      exact CondVar.covers_zero
  | empty deadline hempty =>
    simp only [QueueWaiters.react, Function.update_self, Option.some.injEq] at hr
    subst hr
    have ht := htakes (.inr ⟨deadline, rfl⟩)
    refine hs.pass rfl (fun u h ↦ ?_) (fun u h ↦ .inr (hold ht u h)) ?_ hs.room
    · by_cases hut : u = t
      · exact .inl ⟨hut, deadline, rfl⟩
      · exact .inr ⟨hut, (CondVar.mem_waiting_block h).resolve_left hut⟩
    · show (s.notEmpty.block t).Covers s.users.queue.count
      rw [hempty]
      exact CondVar.covers_zero
  | sent item ho hroom hvalid hcap hcount _ =>
    obtain ⟨hsignals, heq⟩ := Option.ite_none_right_eq_some.mp hr
    cases heq
    have ht := hoffers item ho
    refine hs.pass rfl (fun u h ↦ .inr (hold ht u (CondVar.mem_waiting_signal hsignals h)))
      (fun u h ↦ .inr (CondVar.mem_waiting_resume hF h)) ?_ ?_
    · show (s.notEmpty.signal woken).Covers q'.count
      rw [hcount]
      exact hs.items.signal hsignals
    · show (s.notFull.resume t).Covers (q'.capacity - q'.count)
      refine CondVar.Covers.resume (hs.room.mono ?_)
      omega
  | received item hvalid hcap hcount _ =>
    obtain ⟨hsignals, heq⟩ := Option.ite_none_right_eq_some.mp hr
    cases heq
    have ht := htakes (.inl ⟨item, rfl⟩)
    refine hs.pass rfl (fun u h ↦ .inr (CondVar.mem_waiting_resume hE h))
      (fun u h ↦ .inr (hold ht u (CondVar.mem_waiting_signal hsignals h))) ?_ ?_
    · show (s.notEmpty.resume t).Covers q'.count
      exact CondVar.Covers.resume (hcount ▸ hs.items)
    · show (s.notFull.signal woken).Covers (q'.capacity - q'.count)
      refine (hs.room.signal hsignals).mono ?_
      omega
  | sendTimedOut item deadline hc =>
    obtain ⟨hn, heq⟩ := Option.ite_none_left_eq_some.mp hr
    cases heq
    have ht : t ∉ s.notFull.waiting := fun h ↦ (Finset.mem_union.mp h).elim hF hn
    have ht' : t ∉ s.notEmpty.waiting := hs.not_receiving fun d hd ↦ by cases hc.symm.trans hd
    exact hs.pass rfl (fun u h ↦ .inr (hold ht' u h)) (fun u h ↦ .inr (hold ht u h)) hs.items
      hs.room
  | receiveTimedOut deadline hc =>
    obtain ⟨hn, heq⟩ := Option.ite_none_left_eq_some.mp hr
    cases heq
    have ht : t ∉ s.notEmpty.waiting := fun h ↦ (Finset.mem_union.mp h).elim hE hn
    have ht' : t ∉ s.notFull.waiting := hs.not_sending fun i d hd ↦ by cases hc.symm.trans hd
    exact hs.pass rfl (fun u h ↦ .inr (hold ht u h)) (fun u h ↦ .inr (hold ht' u h)) hs.items
      hs.room

end Attended

theorem run_attended (hr : Run step (init τ itemSize capacity) h s) :
    s.users.queue.Valid ∧ Attended s := by
  refine hr.invariant (I := fun s ↦ s.users.queue.Valid ∧ Attended s) ?_ fun s d s' hs hd ↦ ?_
  · exact ⟨QueueUsers.init_sound.valid, by simp [init, CondVar.init, CondVar.waiting],
      by simp [init, CondVar.init, CondVar.waiting], CondVar.covers_init _, CondVar.covers_init _⟩
  · rcases step_cases hd with ⟨e, woken, users, -, hE, hF, hu, hreact⟩ | ⟨t, -, rfl⟩
    · obtain ⟨c', hpass, -⟩ := QueueUsers.step_passes hs.1 hu
      exact ⟨react_users hreact ▸ hpass.valid hs.1, hs.2.react hs.1 hE hF hu hreact⟩
    · exact ⟨hs.1, hs.2.leave t⟩

theorem step_pass {t : τ} {now : Timespec} {q' : OsalQueue itemSize} {r : QueueResult itemSize}
    (hE : t ∉ s.notEmpty.blocked) (hF : t ∉ s.notFull.blocked)
    (hpass : s.users.queue.pass (s.users.call t) (.timedwait false now) = some (q', .idle, r))
    (woken : Finset τ) :
    s.step (.pass ⟨t, .timedwait false now, r⟩ woken) =
      s.react ⟨t, .timedwait false now, r⟩ woken ⟨q', Function.update s.users.call t .idle⟩ := by
  have hu : s.users.step ⟨t, .timedwait false now, r⟩ =
      some ⟨q', Function.update s.users.call t .idle⟩ := by
    simp [QueueUsers.step, hpass]
  simp [step, hE, hF, hu]

namespace Attended

variable {t : τ}

/-- A receiver that has been let go can take what is there. -/
theorem can_take (hs : Attended s) (hq : s.users.queue.Valid) (ht : t ∈ s.notEmpty.notified)
    {item : Vector UInt8 itemSize} {rest : List (Vector UInt8 itemSize)}
    (hc : s.users.queue.contents = item :: rest) (now : Timespec) :
    ∃ woken s', s.step (.pass ⟨t, .timedwait false now, .received item⟩ woken) = some s' := by
  obtain ⟨d, hcall⟩ := hs.receiving t (Finset.mem_union_right _ ht)
  have hE : t ∉ s.notEmpty.blocked := Finset.disjoint_right.mp s.notEmpty.disjoint ht
  have hF : t ∉ s.notFull.waiting := hs.not_sending fun i d' hd ↦ by cases hcall.symm.trans hd
  have hcount : 0 < s.users.queue.count := by
    rw [← contents_length, hc]
    exact Nat.succ_pos _
  obtain ⟨x, q', htake, -, -, -, hcontents⟩ := take_spec hq hcount
  obtain rfl : item = x := (List.cons.inj (hc.symm.trans hcontents)).1
  have hpass : s.users.queue.pass (s.users.call t) (.timedwait false now) =
      some (q', .idle, .received item) := by
    simp [hcall, OsalQueue.pass, receivePass, hcount.ne', htake]
  have hstep := step_pass hE (fun h ↦ hF (Finset.mem_union_left _ h)) hpass s.notFull.blocked
  exact ⟨s.notFull.blocked, _, hstep.trans (if_pos CondVar.signals_blocked)⟩

theorem can_put (hs : Attended s) (hq : s.users.queue.Valid) (ht : t ∈ s.notFull.notified)
    (hroom : s.users.queue.count < s.users.queue.capacity) (now : Timespec) :
    ∃ item woken s', s.step (.pass ⟨t, .timedwait false now, .sent item⟩ woken) = some s' := by
  obtain ⟨item, d, hcall⟩ := hs.sending t (Finset.mem_union_right _ ht)
  have hF : t ∉ s.notFull.blocked := Finset.disjoint_right.mp s.notFull.disjoint ht
  have hE : t ∉ s.notEmpty.waiting := hs.not_receiving fun d' hd ↦ by cases hcall.symm.trans hd
  obtain ⟨q', hput, -⟩ := put_spec hq hroom item
  have hpass : s.users.queue.pass (s.users.call t) (.timedwait false now) =
      some (q', .idle, .sent item) := by
    simp [hcall, OsalQueue.pass, sendPass, hroom.ne, hput]
  have hstep := step_pass (fun h ↦ hE (Finset.mem_union_left _ h)) hF hpass s.notEmpty.blocked
  exact ⟨item, s.notEmpty.blocked, _, hstep.trans (if_pos CondVar.signals_blocked)⟩

end Attended

/-- No wake-up is lost: a receiver is held back only while other receivers that a signal has
let go suffice for all items, a sender only while the senders let go suffice for all the
room, and each of them can take an item or put its own in as soon as it runs. -/
theorem no_lost_wakeup (hr : Run step (init τ itemSize capacity) h s) :
    (s.notEmpty.blocked.Nonempty →
      s.users.queue.contents.length ≤ s.notEmpty.notified.card) ∧
    (s.notFull.blocked.Nonempty →
      capacity ≤ s.users.queue.contents.length + s.notFull.notified.card) ∧
    (∀ t ∈ s.notEmpty.notified, ∀ item rest now, s.users.queue.contents = item :: rest →
      ∃ woken s', s.step (.pass ⟨t, .timedwait false now, .received item⟩ woken) = some s') ∧
    ∀ t ∈ s.notFull.notified, ∀ now, s.users.queue.contents.length < capacity →
      ∃ item woken s', s.step (.pass ⟨t, .timedwait false now, .sent item⟩ woken) = some s' := by
  obtain ⟨hq, hs⟩ := run_attended hr
  have hcap : s.users.queue.capacity = capacity :=
    (QueueUsers.run_sound (run_users hr)).capacity_eq
  rw [contents_length]
  refine ⟨hs.items, fun hb ↦ ?_, fun t ht item rest now hc ↦ hs.can_take hq ht hc now,
    fun t ht now hroom ↦ hs.can_put hq ht (hcap ▸ hroom) now⟩
  have hroom := hs.room hb
  omega

def twoWaiting : List (WakeEvent (Fin 3) 1) :=
  [.pass ⟨2, .osalQueueSend #v[7] 0 (QueueUsers.atMs 2), .sent #v[7]⟩ {0},
    .pass ⟨1, .osalQueueReceive 10 (QueueUsers.atMs 1), .waits⟩ ∅,
    .pass ⟨0, .osalQueueReceive 10 (QueueUsers.atMs 0), .waits⟩ ∅]

theorem no_lost_wakeup_two_waiting : ∃ s, Run step (init (Fin 3) 1 1) twoWaiting s ∧
    s.notEmpty.blocked = {1} ∧ s.users.queue.contents.length ≤ s.notEmpty.notified.card ∧
    ∃ woken s', s.step (.pass ⟨0, .timedwait false (QueueUsers.atMs 3), .received #v[7]⟩ woken) =
      some s' := by
  have hreplay : (replay step (init (Fin 3) 1 1) twoWaiting).map
      (fun s ↦ (s.notEmpty.blocked, s.notEmpty.notified, s.users.queue.contents)) =
      some ({1}, {0}, [#v[7]]) := by decide
  obtain ⟨s, hr, hv⟩ := exists_run _ hreplay
  obtain ⟨hb, hrest⟩ := Prod.mk.inj hv
  obtain ⟨hn, hc⟩ := Prod.mk.inj hrest
  have hwakes := no_lost_wakeup hr
  exact ⟨s, hr, hb, hwakes.1 (hb ▸ Finset.singleton_nonempty 1),
    hwakes.2.2.1 0 (hn ▸ Finset.mem_singleton_self 0) #v[7] [] _ hc⟩

end QueueWaiters

end BmsFirmware
