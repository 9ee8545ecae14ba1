import BmsFirmware.QueueFifo

namespace BmsFirmware.QueueUsers

open Lib.History Lib.Ring OsalQueue

variable {τ : Type} [DecidableEq τ] {itemSize capacity : ℕ} {h : List (QueueEvent τ itemSize)}
  {s s' : QueueUsers τ itemSize} {e : QueueEvent τ itemSize}

def others (t : τ) (h : List (QueueEvent τ itemSize)) : List (QueueEvent τ itemSize) :=
  h.takeWhile fun e ↦ e.thread ≠ t

def Balanced (t : τ) (h : List (QueueEvent τ itemSize)) : Prop :=
  (puts (operations (others t h))).length = (takes (operations (others t h))).length

instance (t : τ) (h : List (QueueEvent τ itemSize)) : Decidable (Balanced t h) :=
  inferInstanceAs (Decidable (_ = _))

/-- A call that gives up tells the truth about the queue. -/
structure TruthfulTimeout (s : QueueUsers τ itemSize) (e : QueueEvent τ itemSize) : Prop where
  full : e.result = .sendTimedOut → s.queue.count = s.queue.capacity
  empty : e.result = .receiveTimedOut → s.queue.count = 0

def waitLevel (capacity : ℕ) : QueueCall itemSize → Option ℕ
  | .idle => none
  | .sending _ _ => some capacity
  | .receiving _ => some 0

/-- A waiting thread has seen the queue at its level, and only the other threads have changed
it since then. -/
def Tracks (capacity : ℕ) (h : List (QueueEvent τ itemSize)) (s : QueueUsers τ itemSize) : Prop :=
  ∀ t level, waitLevel capacity (s.call t) = some level →
    s.queue.count + (takes (operations (others t h))).length =
      level + (puts (operations (others t h))).length

theorem others_self : others e.thread (e :: h) = [] :=
  List.takeWhile_cons_of_neg (by simp)

theorem others_of_ne {t : τ} (ht : t ≠ e.thread) : others t (e :: h) = e :: others t h :=
  List.takeWhile_cons_of_pos (by simpa using ht.symm)

theorem waits_at_level {q q' : OsalQueue itemSize} {c c' : QueueCall itemSize}
    {a : QueueAction itemSize} {r : QueueResult itemSize} (hpass : Passes q c a q' c' r)
    {level : ℕ} (hc : waitLevel q.capacity c' = some level) : q'.count = level := by
  cases hpass with
  | full item deadline _ hfull => exact hfull.trans (Option.some.inj hc)
  | empty deadline hempty => exact hempty.trans (Option.some.inj hc)
  | sent => cases hc
  | received => cases hc
  | sendTimedOut => cases hc
  | receiveTimedOut => cases hc

theorem Tracks.step (hs : Sound capacity h s) (ht : Tracks capacity h s)
    (he : s.step e = some s') : Tracks capacity (e :: h) s' := by
  obtain ⟨c', hpass, hcall⟩ := step_passes hs.valid he
  intro t level hlevel
  by_cases hte : t = e.thread
  · subst hte
    rw [hcall, Function.update_self, ← hs.capacity_eq] at hlevel
    rw [others_self, waits_at_level hpass hlevel]
    rfl
  · rw [hcall, Function.update_of_ne hte] at hlevel
    have hold := ht t level hlevel
    rw [← OsalQueue.contents_length] at hold ⊢
    rw [others_of_ne hte]
    exact hpass.fifo.2.level hold

theorem run_tracks (hr : Run QueueUsers.step (init τ itemSize capacity) h s) :
    Tracks capacity h s := by
  have hboth : Sound capacity h s ∧ Tracks capacity h s := by
    refine hr.history_invariant (R := fun h s ↦ Sound capacity h s ∧ Tracks capacity h s)
      ⟨init_sound, nofun⟩ fun _ _ _ _ hs he ↦ ⟨hs.1.step he, hs.2.step hs.1 he⟩
  exact hboth.2

theorem truthful_iff_balanced (hs : Sound capacity h s) (ht : Tracks capacity h s)
    (he : s.step e = some s') :
    TruthfulTimeout s e ↔ (e.result.IsTimeout → Balanced e.thread h) := by
  obtain ⟨c', hpass, -⟩ := step_passes hs.valid he
  have hcap := hs.capacity_eq
  have hsend (hres : e.result = .sendTimedOut) :
      Balanced e.thread h ↔ s.queue.count = s.queue.capacity := by
    rw [hres] at hpass
    obtain ⟨item, deadline, hc⟩ := hpass.of_sendTimedOut
    have hlevel := ht e.thread capacity (by rw [hc]; rfl)
    unfold Balanced
    omega
  have hreceive (hres : e.result = .receiveTimedOut) :
      Balanced e.thread h ↔ s.queue.count = 0 := by
    rw [hres] at hpass
    obtain ⟨deadline, hc⟩ := hpass.of_receiveTimedOut
    have hlevel := ht e.thread 0 (by rw [hc]; rfl)
    unfold Balanced
    omega
  constructor
  · rintro ⟨hfull, hempty⟩ (hres | hres)
    · exact (hsend hres).mpr (hfull hres)
    · exact (hreceive hres).mpr (hempty hres)
  · intro hbal
    exact ⟨fun hres ↦ (hsend hres).mp (hbal (.inl hres)),
      fun hres ↦ (hreceive hres).mp (hbal (.inr hres))⟩

/-- In a run every timeout is reported truthfully exactly when, at each of them, the other
threads have put in as many items as they have taken out since the call went to wait. -/
theorem timeouts_truthful_iff (hr : Run QueueUsers.step (init τ itemSize capacity) h s) :
    (∀ e h₁ s₁, e :: h₁ <:+ h → Run QueueUsers.step (init τ itemSize capacity) h₁ s₁ →
      TruthfulTimeout s₁ e) ↔
    ∀ e h₁, e :: h₁ <:+ h → e.result.IsTimeout → Balanced e.thread h₁ := by
  constructor
  · intro htrue e h₁ hsuf
    obtain ⟨s₂, hr₂⟩ := hr.of_suffix hsuf
    obtain ⟨s₁, hr₁, he⟩ := run_cons_iff.mp hr₂
    exact (truthful_iff_balanced (run_sound hr₁) (run_tracks hr₁) he).mp
      (htrue e h₁ s₁ hsuf hr₁)
  · intro hbal e h₁ s₁ hsuf hr₁
    obtain ⟨s₂, hr₂⟩ := hr.of_suffix hsuf
    obtain ⟨s₁', hr₁', he⟩ := run_cons_iff.mp hr₂
    obtain rfl := hr₁'.det hr₁
    exact (truthful_iff_balanced (run_sound hr₁) (run_tracks hr₁) he).mpr (hbal e h₁ hsuf)

theorem timeouts_truthful_iff_on_time : ∃ s, Run QueueUsers.step (init Bool 1 1) onTime s ∧
    ∀ e h₁ s₁, e :: h₁ <:+ onTime → Run QueueUsers.step (init Bool 1 1) h₁ s₁ →
      TruthfulTimeout s₁ e := by
  have hreplay : (replay QueueUsers.step (init Bool 1 1) onTime).map (·.queue.count) =
      some 1 := by decide
  obtain ⟨s, hr, -⟩ := exists_run _ hreplay
  refine ⟨s, hr, (timeouts_truthful_iff hr).mpr fun e h₁ hsuf htimeout ↦ ?_⟩
  simp only [onTime, List.suffix_cons_iff, List.cons.injEq, List.suffix_nil] at hsuf
  rcases hsuf with ⟨rfl, rfl⟩ | ⟨rfl, rfl⟩ | ⟨rfl, rfl⟩ | hnil
  · decide
  · rcases htimeout with hres | hres <;> cases hres
  · rcases htimeout with hres | hres <;> cases hres
  · cases hnil

/-- A sender gives up although the queue of one item is empty. -/
theorem room_refused : ∃ e h₁ s₁, e :: h₁ <:+ lateWake ∧
    Run QueueUsers.step (init Bool 1 1) h₁ s₁ ∧ s₁.queue.count = 0 ∧ ¬ TruthfulTimeout s₁ e := by
  have hreplay : (replay QueueUsers.step (init Bool 1 1) lateWake.tail).map
      (fun s ↦ (s.queue.count, s.queue.capacity)) = some (0, 1) := by decide
  obtain ⟨s₁, hr, hs⟩ := exists_run _ hreplay
  obtain ⟨hcount, hcap⟩ := Prod.mk.inj hs
  refine ⟨_, lateWake.tail, s₁, List.suffix_rfl, hr, hcount, fun htrue ↦ ?_⟩
  have hfull := htrue.full rfl
  omega

end BmsFirmware.QueueUsers
