import BmsFirmware.Lib.History
import BmsFirmware.SocketCanRx
import Mathlib.Data.Finset.Basic

namespace BmsFirmware.SocketCan

open Config Lib.History

/-- Where the reader stands: in front of the test of `g_running`, behind it, in `read`, with a
frame in front of the lock, or in the loop over the copied table. -/
inductive Reader (κ : Type) where
  | testing
  | entering
  | reading (fd : ℤ)
  | dispatching (frame : CanFrame)
  | delivering (frame : CanFrame) (rest : List (Option κ))
  | exited

/-- `stopping`, `joined` and `closed` are inside `can_hal_shutdown`. -/
inductive LifeStage
  | down | up | stopping | joined | closed
deriving DecidableEq, Repr

inductive ReadResult where
  | again
  | failed
  | bytes (n : ℕ) (raw : Vector UInt8 canfdMtu) (junk : Vector UInt8 canMaxDlc)

inductive LifeEvent (κ : Type) where
  | init (o : InitOutcome)
  | subscribe (sub : Option κ)
  | stop
  | join
  | close
  | destroy
  | test
  | enter
  | read (r : ReadResult)
  | copy
  | deliver

/-- The backend with its reader task and the descriptors that it has open; `calls` are the
callbacks made, the latest first. -/
structure LiveBackend (κ : Type) where
  hal : SocketCan κ
  reader : Option (Reader κ)
  stage : LifeStage
  fds : Finset ℤ
  calls : List (κ × CanFrame)

namespace LiveBackend

variable {κ : Type}

def start : LiveBackend κ := ⟨SocketCan.start, none, .down, ∅, []⟩

def setReader (s : LiveBackend κ) (r : Reader κ) : LiveBackend κ := { s with reader := some r }

def afterRead (order : ByteOrder) : ReadResult → Reader κ
  | .again => .testing
  | .failed => .exited
  | .bytes n raw junk =>
    match rxFrame order n raw junk with
    | none => .testing
    | some frame => .dispatching frame

def readerStep (order : ByteOrder) (s : LiveBackend κ) :
    Reader κ → LifeEvent κ → Option (LiveBackend κ)
  | .testing, .test => some (s.setReader (if s.hal.running then .entering else .exited))
  | .entering, .enter => some (s.setReader (.reading s.hal.sock))
  | .reading _, .read r => some (s.setReader (afterRead order r))
  | .dispatching frame, .copy =>
    match osalMutexLock s.hal.subLock with
    | .ok () => some (s.setReader (.delivering frame (s.hal.subs.toList.take s.hal.subCount)))
    | .error _ => none
  | .delivering _ [], .deliver => some (s.setReader .testing)
  | .delivering frame (sub :: rest), .deliver =>
    some { s.setReader (.delivering frame rest) with
      calls := (sub.map (·, frame)).toList ++ s.calls }
  | _, _ => none

/-- `can_hal_init` is called on a backend that is down, and the subscriptions are over when
`can_hal_shutdown` is called. -/
def step (order : ByteOrder) (s : LiveBackend κ) (e : LifeEvent κ) : Option (LiveBackend κ) :=
  match s.stage, e with
  | .down, .init o =>
    if (canHalInit s.hal o).1 = 0 then
      some { s with
        hal := (canHalInit s.hal o).2
        reader := if o.task then some .testing else none
        stage := .up
        fds := insert o.socket s.fds }
    else some { s with hal := (canHalInit s.hal o).2 }
  | .up, .subscribe sub =>
    match canHalSubscribe s.hal sub with
    | .ok (_, hal) => some { s with hal := hal }
    | .error _ => none
  | .down, .stop | .up, .stop =>
    some { s with hal := { s.hal with running := false }, stage := .stopping }
  | .stopping, .join =>
    match s.hal.rxTask, s.reader with
    | true, some .exited =>
      some { s with hal := { s.hal with rxTask := false }, reader := none, stage := .joined }
    | false, _ => some { s with stage := .joined }
    | _, _ => none
  | .joined, .close =>
    some { s with
      hal := { s.hal with sock := if s.hal.sock ≥ 0 then -1 else s.hal.sock }
      fds := s.fds.erase s.hal.sock
      stage := .closed }
  | .closed, .destroy =>
    some { s with hal := { s.hal with subLock := .null, subCount := 0 }, stage := .down }
  | _, e => s.reader.bind fun r ↦ s.readerStep order r e

structure Equipped (s : LiveBackend κ) : Prop where
  running : s.hal.rxTask = true
  sock : 0 ≤ s.hal.sock
  subLock : s.hal.subLock = .live
  stage : s.stage = .up ∨ s.stage = .stopping

structure Sound (s : LiveBackend κ) : Prop where
  fds : s.fds = if 0 ≤ s.hal.sock then {s.hal.sock} else ∅
  task : s.hal.rxTask = s.reader.isSome
  equipped : s.reader ≠ none → s.Equipped
  reading : ∀ fd, s.reader = some (.reading fd) → fd = s.hal.sock
  copied : ∀ frame rest, s.reader = some (.delivering frame rest) → rest.length ≤ maxSubscribers
  stopped : s.stage = .stopping → s.hal.running = false
  up : s.stage = .up → s.hal.subLock = .live
  shut : s.stage = .closed ∨ s.stage = .down → s.hal.sock < 0
  destroyed : s.stage = .down → s.hal.subLock = .null

def left : Reader κ → ℕ
  | .exited => 0
  | .testing => 1
  | .delivering _ rest => rest.length + 2
  | .dispatching _ => maxSubscribers + 3
  | .reading _ => maxSubscribers + 4
  | .entering => maxSubscribers + 5

structure Goes (s : LiveBackend κ) (r r' : Reader κ) : Prop where
  reading : ∀ fd, r' = .reading fd → fd = s.hal.sock
  copied : ∀ frame rest, r' = .delivering frame rest → rest.length ≤ maxSubscribers
  shrinks : s.hal.running = false → left r' < left r

structure Moves (s s' : LiveBackend κ) (r r' : Reader κ) : Prop extends Goes s r r' where
  reader : s'.reader = some r'
  hal : s'.hal = s.hal
  stage : s'.stage = s.stage
  fds : s'.fds = s.fds

variable {order : ByteOrder} {s s' : LiveBackend κ} {r r' : Reader κ} {e : LifeEvent κ}

theorem Goes.moves (h : Goes s r r') : Moves s (s.setReader r') r r' := ⟨h, rfl, rfl, rfl, rfl⟩

theorem afterRead_goes (s : LiveBackend κ) (order : ByteOrder) (fd : ℤ) (x : ReadResult) :
    Goes s (.reading fd) (afterRead order x) := by
  have htesting : Goes s (.reading fd) .testing := ⟨by simp, by simp, by simp [left]⟩
  cases x with
  | again => exact htesting
  | failed => exact ⟨by simp [afterRead], by simp [afterRead], by simp [afterRead, left]⟩
  | bytes n raw junk =>
    simp only [afterRead]
    split
    · exact htesting
    · exact ⟨by simp, by simp, by simp [left]⟩

theorem copy_goes (s : LiveBackend κ) (frame : CanFrame) : Goes s (.dispatching frame)
    (.delivering frame (s.hal.subs.toList.take s.hal.subCount)) := by
  have hle : (s.hal.subs.toList.take s.hal.subCount).length ≤ maxSubscribers := by simp
  refine ⟨by simp, fun frame' rest hrest ↦ ?_, fun _ ↦ ?_⟩
  · cases hrest
    exact hle
  · simp only [left]
    omega

theorem readerStep_moves
    (hcopied : ∀ frame rest, r = .delivering frame rest → rest.length ≤ maxSubscribers)
    (h : s.readerStep order r e = some s') : ∃ r', Moves s s' r r' := by
  unfold readerStep at h
  split at h
  · cases h
    refine ⟨_, Goes.moves ⟨fun fd hfd ↦ ?_, fun frame rest hrest ↦ ?_, fun hstop ↦ ?_⟩⟩
    · split_ifs at hfd
    · split_ifs at hrest
    · rw [hstop]
      exact Nat.zero_lt_one
  · cases h
    exact ⟨_, Goes.moves ⟨fun fd hfd ↦ (Reader.reading.inj hfd).symm, by simp, by simp [left]⟩⟩
  · cases h
    exact ⟨_, (afterRead_goes s order _ _).moves⟩
  · split at h
    · cases h
      exact ⟨_, (copy_goes s _).moves⟩
    · cases h
  · cases h
    exact ⟨_, Goes.moves ⟨by simp, by simp, by simp [left]⟩⟩
  · next frame sub rest =>
    cases h
    have hgoes : Goes s (.delivering frame (sub :: rest)) (.delivering frame rest) := by
      refine ⟨by simp, fun frame' rest' hrest ↦ ?_, by simp [left]⟩
      cases hrest
      exact (Nat.le_succ _).trans (hcopied frame (sub :: rest) rfl)
    exact ⟨_, hgoes, rfl, rfl, rfl, rfl⟩
  · cases h

namespace Sound

variable {o : InitOutcome}

theorem alone (hs : Sound s) (hstage : s.stage ≠ .up) (hstage' : s.stage ≠ .stopping) :
    s.reader = none := by
  by_contra hr
  exact (hs.equipped hr).stage.elim hstage hstage'

theorem moves (hs : Sound s) (hr : s.reader = some r) (hm : Moves s s' r r') : Sound s' := by
  have hsome : s.reader ≠ none := hr ▸ Option.some_ne_none r
  have he := hs.equipped hsome
  constructor
  · rw [hm.fds, hm.hal, hs.fds]
  · rw [hm.hal, hs.task, hm.reader, hr]
    rfl
  · exact fun _ ↦ ⟨hm.hal ▸ he.running, hm.hal ▸ he.sock, hm.hal ▸ he.subLock, hm.stage ▸ he.stage⟩
  · intro fd hfd
    rw [hm.hal]
    exact hm.reading fd (Option.some.inj (hm.reader.symm.trans hfd))
  · intro frame rest hrest
    exact hm.copied frame rest (Option.some.inj (hm.reader.symm.trans hrest))
  · rw [hm.stage, hm.hal]
    exact hs.stopped
  · rw [hm.stage, hm.hal]
    exact hs.up
  · rw [hm.stage, hm.hal]
    exact hs.shut
  · rw [hm.stage, hm.hal]
    exact hs.destroyed

end Sound

theorem init_ok {hal : SocketCan κ} {o : InitOutcome} (h : (canHalInit hal o).1 = 0) :
    0 ≤ o.socket ∧ (canHalInit hal o).2 =
      { hal with
        sock := o.socket
        subLock := .live
        subCount := 0
        subs := Vector.replicate maxSubscribers none
        running := true
        rxTask := o.task } := by
  unfold canHalInit at h ⊢
  dsimp only at h ⊢
  split_ifs at h ⊢ with hsock hioctl hbind
  · cases h
  · cases h
  · cases h
  · exact ⟨not_lt.mp hsock, rfl⟩

theorem init_failed {hal : SocketCan κ} {o : InitOutcome} (h : (canHalInit hal o).1 ≠ 0) :
    (canHalInit hal o).2.sock < 0 ∧
      (canHalInit hal o).2 = { hal with sock := (canHalInit hal o).2.sock } := by
  unfold canHalInit at h ⊢
  dsimp only at h ⊢
  split_ifs at h ⊢ with hsock hioctl hbind
  · exact ⟨hsock, rfl⟩
  · exact ⟨by simp, rfl⟩
  · exact ⟨by simp, rfl⟩
  · exact absurd rfl h

theorem subscribe_frame {hal hal' : SocketCan κ} {sub : Option κ} {n : ℤ}
    (h : canHalSubscribe hal sub = .ok (n, hal')) : hal'.sock = hal.sock ∧
      hal'.rxTask = hal.rxTask ∧ hal'.running = hal.running ∧ hal'.subLock = hal.subLock := by
  cases hlock : hal.subLock with
  | live =>
    simp only [canHalSubscribe, hlock, osalMutexLock, osalMutexUnlock] at h
    split_ifs at h
    · cases h
      exact ⟨rfl, rfl, rfl, hlock⟩
    · cases h
      exact ⟨rfl, rfl, rfl, rfl⟩
  | null =>
    simp only [canHalSubscribe, hlock, osalMutexLock, osalMutexUnlock] at h
    split_ifs at h
    · cases h
      exact ⟨rfl, rfl, rfl, hlock⟩
    · cases h

theorem Sound.step (hs : Sound s) (h : s.step order e = some s') : Sound s' := by
  unfold LiveBackend.step at h
  split at h
  · next o hstage =>
    have hr := hs.alone (by simp [hstage]) (by simp [hstage])
    have hneg := hs.shut (.inr hstage)
    have hfds : s.fds = ∅ := hs.fds.trans (if_neg (not_le.mpr hneg))
    by_cases hok : (canHalInit s.hal o).1 = 0
    · rw [if_pos hok] at h
      obtain ⟨hsock, heq⟩ := init_ok hok
      cases h
      rw [heq]
      cases o.task with
      | true =>
        exact ⟨by simp [hfds, hsock], rfl, fun _ ↦ ⟨rfl, hsock, rfl, .inl rfl⟩, by simp, by simp,
          by simp, fun _ ↦ rfl, by simp, by simp⟩
      | false =>
        exact ⟨by simp [hfds, hsock], rfl, by simp, by simp, by simp, by simp, fun _ ↦ rfl, by simp,
          by simp⟩
    · rw [if_neg hok] at h
      obtain ⟨hsock, heq⟩ := init_failed hok
      cases h
      exact ⟨hfds.trans (if_neg (not_le.mpr hsock)).symm, heq ▸ hs.task, by simp [hr], by simp [hr],
        by simp [hr], by simp [hstage], by simp [hstage], fun _ ↦ hsock,
        fun _ ↦ heq ▸ hs.destroyed hstage⟩
  · next sub hstage =>
    split at h
    · next n hal hsub =>
      cases h
      obtain ⟨hsock, htask, hrunning, hlock⟩ := subscribe_frame hsub
      exact ⟨hsock ▸ hs.fds, htask ▸ hs.task, fun hr ↦ ⟨htask ▸ (hs.equipped hr).running,
        hsock ▸ (hs.equipped hr).sock, hlock ▸ (hs.equipped hr).subLock, .inl hstage⟩,
        fun fd hfd ↦ hsock ▸ hs.reading fd hfd, hs.copied, by simp [hstage],
        fun _ ↦ hlock ▸ hs.up hstage, by simp [hstage], by simp [hstage]⟩
    · cases h
  · next hstage =>
    cases h
    have hr := hs.alone (by simp [hstage]) (by simp [hstage])
    exact ⟨hs.fds, hs.task, by simp [hr], by simp [hr], by simp [hr], fun _ ↦ rfl, by simp, by simp,
      by simp⟩
  · next hstage =>
    cases h
    exact ⟨hs.fds, hs.task, fun hr ↦ ⟨(hs.equipped hr).running, (hs.equipped hr).sock,
      (hs.equipped hr).subLock, .inr rfl⟩, hs.reading, hs.copied, fun _ ↦ rfl, by simp, by simp,
      by simp⟩
  · next hstage =>
    split at h
    · next htask hr =>
      cases h
      exact ⟨hs.fds, rfl, by simp, by simp, by simp, by simp, by simp, by simp, by simp⟩
    · next htask =>
      cases h
      have hr : s.reader = none := by simpa [htask] using hs.task
      exact ⟨hs.fds, hs.task, by simp [hr], by simp [hr], by simp [hr], by simp, by simp, by simp,
        by simp⟩
    · cases h
  · next hstage =>
    cases h
    have hr := hs.alone (by simp [hstage]) (by simp [hstage])
    have hneg : (if s.hal.sock ≥ 0 then -1 else s.hal.sock) < 0 := by split_ifs <;> omega
    refine ⟨?_, hs.task, by simp [hr], by simp [hr], by simp [hr], by simp, by simp, fun _ ↦ hneg,
      by simp⟩
    show s.fds.erase s.hal.sock = _
    rw [if_neg (not_le.mpr hneg), hs.fds]
    split_ifs
    · exact Finset.erase_singleton _
    · exact Finset.erase_empty _
  · next hstage =>
    cases h
    have hr := hs.alone (by simp [hstage]) (by simp [hstage])
    exact ⟨hs.fds, hs.task, by simp [hr], by simp [hr], by simp [hr], by simp, by simp,
      fun _ ↦ hs.shut (.inl hstage), fun _ ↦ rfl⟩
  · obtain ⟨r, hr, hm⟩ := Option.bind_eq_some_iff.mp h
    obtain ⟨r', hm⟩ := readerStep_moves (fun frame rest he ↦ hs.copied frame rest (he ▸ hr)) hm
    exact hs.moves hr hm

theorem run_sound {h : List (LifeEvent κ)} (hr : Run (step order) start h s) : Sound s := by
  refine hr.invariant (I := Sound) ?_ fun s e s' hs he ↦ hs.step he
  exact ⟨rfl, rfl, by simp [start], by simp [start], by simp [start], by simp [start],
    by simp [start], by simp [start, SocketCan.start], fun _ ↦ rfl⟩

/-- Nothing is taken away from a reader. -/
theorem Sound.keeps (hs : Sound s) (hr : s.reader ≠ none) (h : s.step order e = some s') :
    s'.fds = s.fds ∧ s'.hal.subLock = s.hal.subLock := by
  have hstage := (hs.equipped hr).stage
  unfold LiveBackend.step at h
  split at h
  · next o hdown => simp [hdown] at hstage
  · next sub _ =>
    split at h
    · next n hal hsub =>
      cases h
      exact ⟨rfl, (subscribe_frame hsub).2.2.2⟩
    · cases h
  · next hdown => simp [hdown] at hstage
  · cases h
    exact ⟨rfl, rfl⟩
  · split at h
    · cases h
      exact ⟨rfl, rfl⟩
    · cases h
      exact ⟨rfl, rfl⟩
    · cases h
  · next hjoined => simp [hjoined] at hstage
  · next hclosed => simp [hclosed] at hstage
  · obtain ⟨r, hr, hm⟩ := Option.bind_eq_some_iff.mp h
    obtain ⟨r', hm⟩ := readerStep_moves (fun frame rest he ↦ hs.copied frame rest (he ▸ hr)) hm
    exact ⟨hm.fds, congrArg subLock hm.hal⟩

theorem step_silent (hr : s.reader = none) (h : s.step order e = some s') :
    s'.calls = s.calls := by
  unfold step at h
  split at h
  · split_ifs at h
    · cases h
      rfl
    · cases h
      rfl
    · cases h
      rfl
  · split at h
    · cases h
      rfl
    · cases h
  · cases h
    rfl
  · cases h
    rfl
  · split at h
    · cases h
      rfl
    · cases h
      rfl
    · cases h
  · cases h
    rfl
  · cases h
    rfl
  · rw [hr] at h
    cases h

def remaining (s : LiveBackend κ) : ℕ :=
  (match s.stage with
    | .stopping => 3
    | .joined => 2
    | .closed => 1
    | .down | .up => 0) + s.reader.elim 0 left

def ShuttingDown (s : LiveBackend κ) : Prop := s.stage ≠ .down ∧ s.stage ≠ .up

theorem Sound.shrinks (hs : Sound s) (hd : s.ShuttingDown) (h : s.step order e = some s') :
    s'.stage ≠ .up ∧ s'.remaining < s.remaining := by
  obtain ⟨hdown, hup⟩ := hd
  unfold LiveBackend.step at h
  split at h
  · next hstage => exact absurd hstage hdown
  · next hstage => exact absurd hstage hup
  · next hstage => exact absurd hstage hdown
  · next hstage => exact absurd hstage hup
  · next hstage =>
    split at h
    · next hr =>
      cases h
      simp [remaining, hstage, hr, left]
    · cases h
      simp [remaining, hstage]
    · cases h
  · next hstage =>
    cases h
    simp [remaining, hstage]
  · next hstage =>
    cases h
    simp [remaining, hstage]
  · obtain ⟨r, hr, hm⟩ := Option.bind_eq_some_iff.mp h
    obtain ⟨r', hm⟩ := readerStep_moves (fun frame rest he ↦ hs.copied frame rest (he ▸ hr)) hm
    have hstage := (hs.equipped (hr ▸ Option.some_ne_none r)).stage.resolve_left hup
    refine ⟨hm.stage ▸ hup, ?_⟩
    have hshrinks := hm.shrinks (hs.stopped hstage)
    simp [remaining, hm.stage, hm.reader, hr, hshrinks]

/-- Nobody is ever stuck: `read` comes back after its timeout, and the reader that
`can_hal_shutdown` waits for can go on. -/
theorem Sound.can_step (hs : Sound s) (order : ByteOrder) : ∃ e s', s.step order e = some s' := by
  cases hstage : s.stage with
  | down => exact ⟨.stop, _, by simp only [LiveBackend.step, hstage]; rfl⟩
  | up => exact ⟨.stop, _, by simp only [LiveBackend.step, hstage]; rfl⟩
  | joined => exact ⟨.close, _, by simp only [LiveBackend.step, hstage]; rfl⟩
  | closed => exact ⟨.destroy, _, by simp only [LiveBackend.step, hstage]; rfl⟩
  | stopping =>
    have htask := hs.task
    cases hr : s.reader with
    | none =>
      rw [hr] at htask
      exact ⟨.join, _, by simp only [LiveBackend.step, hstage, htask, hr]; rfl⟩
    | some r =>
      rw [hr] at htask
      have hlive := (hs.equipped (hr ▸ Option.some_ne_none r)).subLock
      cases r with
      | exited => exact ⟨.join, _, by simp only [LiveBackend.step, hstage, htask, hr]; rfl⟩
      | testing => exact ⟨.test, _, by simp only [LiveBackend.step, hstage, hr]; rfl⟩
      | entering => exact ⟨.enter, _, by simp only [LiveBackend.step, hstage, hr]; rfl⟩
      | reading fd => exact ⟨.read .again, _, by simp only [LiveBackend.step, hstage, hr]; rfl⟩
      | dispatching frame =>
        refine ⟨.copy, s.setReader (.delivering frame (s.hal.subs.toList.take s.hal.subCount)), ?_⟩
        simp [LiveBackend.step, hstage, hr, readerStep, hlive, osalMutexLock]
      | delivering frame rest =>
        cases rest with
        | nil => exact ⟨.deliver, _, by simp only [LiveBackend.step, hstage, hr]; rfl⟩
        | cons sub rest => exact ⟨.deliver, _, by simp only [LiveBackend.step, hstage, hr]; rfl⟩

theorem remaining_le (hs : Sound s) : s.remaining ≤ 16 := by
  have hreader : s.reader.elim 0 left ≤ 13 := by
    cases hr : s.reader with
    | none => exact Nat.zero_le _
    | some r =>
      cases r with
      | delivering frame rest =>
        have hle : rest.length ≤ 8 := hs.copied frame rest hr
        simp only [Option.elim_some, left]
        omega
      | _ => simp [left, maxSubscribers]
  unfold remaining
  cases s.stage with
  | _ =>
    simp only
    omega

theorem remaining_pos (hd : s.ShuttingDown) : 0 < s.remaining := by
  obtain ⟨hdown, hup⟩ := hd
  unfold remaining
  cases hstage : s.stage with
  | down => exact absurd hstage hdown
  | up => exact absurd hstage hup
  | _ => exact Nat.add_pos_left (by decide) _

/-- A run from inside `can_hal_shutdown` comes to its end or shrinks what remains. -/
theorem run_shrinks (hs : Sound s) (hd : s.ShuttingDown) {k : List (LifeEvent κ)}
    (hr : Run (step order) s k s') :
    (∃ k₁ s₁, k₁ <:+ k ∧ Run (step order) s k₁ s₁ ∧ s₁.stage = .down) ∨
      (Sound s' ∧ s'.ShuttingDown ∧ s'.remaining + k.length ≤ s.remaining) := by
  induction hr with
  | start => exact .inr ⟨hs, hd, le_rfl⟩
  | @next k s₁ s₂ e hr he ih =>
    rcases ih with ⟨k₁, s₁, hsuf, hrun, hdown⟩ | ⟨hs₁, hd₁, hle⟩
    · exact .inl ⟨k₁, s₁, hsuf.trans (List.suffix_cons e k), hrun, hdown⟩
    · obtain ⟨hup, hlt⟩ := hs₁.shrinks hd₁ he
      by_cases hdown : s₂.stage = .down
      · exact .inl ⟨e :: k, s₂, List.suffix_rfl, hr.next he, hdown⟩
      · refine .inr ⟨hs₁.step he, ⟨hdown, hup⟩, ?_⟩
        rw [List.length_cons]
        omega

/-- The reader only reads from an open descriptor and only takes a live mutex: while it
lives, neither is taken away; and without a reader no callback is made. -/
theorem reader_equipped {h : List (LifeEvent κ)} (hr : Run (step order) start h s) :
    (∀ fd, s.reader = some (.reading fd) → fd ∈ s.fds) ∧
    (∀ frame, s.reader = some (.dispatching frame) → s.hal.subLock = .live) ∧
    (∀ e s', s.step order e = some s' →
      (s.reader ≠ none → s'.fds = s.fds ∧ s'.hal.subLock = s.hal.subLock) ∧
      (s.reader = none → s'.calls = s.calls)) ∧
    (s.stage = .down → s.fds = ∅ ∧ s.reader = none) := by
  have hs := run_sound hr
  refine ⟨fun fd hfd ↦ ?_, fun frame hf ↦ ?_,
    fun e s' he ↦ ⟨fun hreader ↦ hs.keeps hreader he, fun hnone ↦ step_silent hnone he⟩,
    fun hdown ↦ ⟨?_, hs.alone (by simp [hdown]) (by simp [hdown])⟩⟩
  · have hsock := (hs.equipped (hfd ▸ Option.some_ne_none _)).sock
    rw [hs.fds, if_pos hsock, hs.reading fd hfd]
    exact Finset.mem_singleton_self _
  · exact (hs.equipped (hf ▸ Option.some_ne_none _)).subLock
  · exact hs.fds.trans (if_neg (not_le.mpr (hs.shut (.inr hdown))))

/-- `can_hal_shutdown` returns: whatever the reader is doing, at most 16 steps of it and of
the caller are left, one of them is always possible, and nothing stays open. -/
theorem shutdown_returns {h : List (LifeEvent κ)} (hr : Run (step order) start h s)
    (hd : s.ShuttingDown) :
    (∀ k s', Run (step order) s k s' → ∃ e s'', s'.step order e = some s'') ∧
    ∀ k s', Run (step order) s k s' → 16 ≤ k.length →
      ∃ k₁ s₁, k₁ <:+ k ∧ Run (step order) s k₁ s₁ ∧ s₁.stage = .down ∧ s₁.fds = ∅ ∧
        s₁.reader = none := by
  have hs := run_sound hr
  have hsound (k : List (LifeEvent κ)) (s' : LiveBackend κ) (hk : Run (step order) s k s') :
      Sound s' := hk.invariant (I := Sound) hs fun _ _ _ hs₁ he ↦ hs₁.step he
  refine ⟨fun k s' hk ↦ (hsound k s' hk).can_step order, fun k s' hk hlong ↦ ?_⟩
  rcases run_shrinks hs hd hk with ⟨k₁, s₁, hsuf, hrun, hdown⟩ | ⟨-, hd', hle⟩
  · have hs₁ := hsound k₁ s₁ hrun
    exact ⟨k₁, s₁, hsuf, hrun, hdown, hs₁.fds.trans (if_neg (not_le.mpr (hs₁.shut (.inr hdown)))),
      hs₁.alone (by simp [hdown]) (by simp [hdown])⟩
  · have hpos := remaining_pos hd'
    have hmax := remaining_le hs
    omega

/-- The steps of `can_hal_shutdown` make up the whole call. -/
theorem shutdown_hal (hreader : s.reader = some .exited) (htask : s.hal.rxTask = true)
    (hup : s.stage = .up) :
    (replay (step order) s [.destroy, .close, .join, .stop]).map (·.hal) =
      some (canHalShutdown s.hal) := by
  simp [replay, step, hup, htask, hreader, canHalShutdown]

def interrupted : List (LifeEvent Bool) :=
  [.stop, .enter, .test, .subscribe (some true), .init ⟨5, 0, 0, true⟩]

theorem reader_equipped_interrupted : ∃ s, Run (step .little) start interrupted s ∧
    s.stage = .stopping ∧ ∀ fd, s.reader = some (.reading fd) → fd ∈ s.fds := by
  have hreplay : (replay (step .little) start interrupted).map (·.stage) = some .stopping := by
    decide
  obtain ⟨s, hr, hs⟩ := exists_run _ hreplay
  exact ⟨s, hr, hs, (reader_equipped hr).1⟩

def noticed : List (LifeEvent Bool) :=
  (List.replicate 3 [.destroy, .close, .join, .stop, .init ⟨5, 0, 0, false⟩]).flatten ++
    [.destroy, .close, .join, .test, .read .again]

theorem shutdown_returns_interrupted : ∃ s s', Run (step .little) start interrupted s ∧
    Run (step .little) s noticed s' ∧ (∃ e s'', s'.step .little e = some s'') ∧
    ∃ k₁ s₁, k₁ <:+ noticed ∧ Run (step .little) s k₁ s₁ ∧ s₁.stage = .down ∧ s₁.fds = ∅ ∧
      s₁.reader = none := by
  have hreplay : (replay (step .little) start interrupted).map (·.stage) = some .stopping := by
    decide
  have hlater : (replay (step .little) start (noticed ++ interrupted)).map (·.stage) =
      some .down := by decide
  obtain ⟨s, hr, hs⟩ := exists_run _ hreplay
  obtain ⟨s', hr', -⟩ := exists_run _ hlater
  have hrest := hr'.rest hr
  have hd : s.ShuttingDown := by simp [ShuttingDown, hs]
  exact ⟨s, s', hr, hrest, (shutdown_returns hr hd).1 noticed s' hrest,
    (shutdown_returns hr hd).2 noticed s' hrest (by decide)⟩

end LiveBackend

end BmsFirmware.SocketCan
