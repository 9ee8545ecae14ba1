import BmsFirmware.Lib.Threads

namespace BmsFirmware.Lib.Threads

open Function Lib.History

inductive Guard (S : Signature)
  | lock (m : S.Lock)
  | thread (t : S.Thread)

/-- Which lock a variable belongs to, or which thread, and the locks that the
threads started by the root may use. -/
structure Discipline (S : Signature) where
  guard : S.Var → Guard S
  shared : List S.Lock

/-- What is known about a thread at a point of its code: the lock that it holds
and whether it has acted since, the locks that exist as far as it needs to know,
and of the root the threads that it has started, those not yet joined apart. -/
structure Phase (S : Signature) where
  held : Option (S.Lock × Bool)
  live : List S.Lock
  forked : List S.Thread
  spent : List S.Thread

variable {S : Signature} {ℓ : Type}

namespace Phase

def setHeld (p : Phase S) (x : Option (S.Lock × Bool)) : Phase S := { p with held := x }

def setLive (p : Phase S) (ms : List S.Lock) : Phase S := { p with live := ms }

def fork (p : Phase S) (t : S.Thread) : Phase S :=
  { p with forked := t :: p.forked, spent := t :: p.spent }

def setForked (p : Phase S) (ts : List S.Thread) : Phase S := { p with forked := ts }

def lock? (p : Phase S) : Option S.Lock := p.held.map (·.1)

section Fields

variable (p : Phase S) (x : Option (S.Lock × Bool)) (ms : List S.Lock) (t : S.Thread)
  (ts : List S.Thread)

@[simp] theorem setHeld_held : (p.setHeld x).held = x := rfl

@[simp] theorem setHeld_live : (p.setHeld x).live = p.live := rfl

@[simp] theorem setLive_live : (p.setLive ms).live = ms := rfl

@[simp] theorem setLive_lock? : (p.setLive ms).lock? = p.lock? := rfl

@[simp] theorem fork_lock? : (p.fork t).lock? = p.lock? := rfl

@[simp] theorem fork_live : (p.fork t).live = p.live := rfl

@[simp] theorem fork_forked : (p.fork t).forked = t :: p.forked := rfl

@[simp] theorem fork_spent : (p.fork t).spent = t :: p.spent := rfl

@[simp] theorem setForked_lock? : (p.setForked ts).lock? = p.lock? := rfl

@[simp] theorem setForked_live : (p.setForked ts).live = p.live := rfl

@[simp] theorem setForked_forked : (p.setForked ts).forked = ts := rfl

@[simp] theorem setForked_spent : (p.setForked ts).spent = p.spent := rfl

end Fields

def root : Phase S where
  held := none
  live := []
  forked := []
  spent := []

def born (D : Discipline S) : Phase S where
  held := none
  live := D.shared
  forked := []
  spent := []

variable [DecidableEq S.Thread] [DecidableEq S.Lock]

instance : DecidableEq (Phase S) := fun p q ↦
  decidable_of_iff
    (p.held = q.held ∧ p.live = q.live ∧ p.forked = q.forked ∧ p.spent = q.spent) (by
      cases p
      cases q
      simp)

def next (p : Phase S) : Code S ℓ → Phase S
  | .create m _ => p.setLive (m :: p.live)
  | .destroy m _ => p.setLive (p.live.filter (· ≠ m))
  | .lock m _ => p.setHeld (some (m, false))
  | .unlock _ _ => p.setHeld none
  | .act _ _ => p.setHeld (p.held.map fun x ↦ (x.1, true))
  | .spawn t _ => p.fork t
  | .join t _ => p.setForked (p.forked.filter (· ≠ t))
  | _ => p

end Phase

section Check

variable [DecidableEq S.Thread] [DecidableEq S.Lock] (P : Program S) (D : Discipline S)
  (t : S.Thread)

def allows (p : Phase S) (v : S.Var) : Bool :=
  (match D.guard v with
    | .lock m => decide (p.lock? = some m)
    | .thread u => decide (u = t)) || decide (t = P.root ∧ p.forked = [])

variable {P D t} in
theorem allows_congr {p q : Phase S} (hl : q.lock? = p.lock?) (hf : q.forked = p.forked) :
    allows P D t q = allows P D t p := by
  funext v
  simp only [allows, hl, hf]

variable {P D t} in
theorem allows_acted {p : Phase S} {m : S.Lock} (hp : p.held = some (m, false)) :
    allows P D t (p.setHeld (some (m, true))) = allows P D t p :=
  allows_congr (by simp [Phase.lock?, hp]) rfl

/-- The rule for the first statement of a code. Locks are not nested, and a
section acts at most once. -/
def admits (p : Phase S) : Code S ℓ → Bool
  | .done => true
  | .create m _ => decide (t = P.root ∧ p.held = none ∧ m ∉ p.live)
  | .destroy m _ => decide (t = P.root ∧ p.held = none ∧ m ∈ p.live ∧ p.forked = [])
  | .lock m _ => decide (p.held = none ∧ m ∈ p.live)
  | .unlock m _ => decide (p.lock? = some m)
  | .access v _ _ => allows P D t p v
  | .act _ _ => p.held.all fun x ↦ !x.2
  | .spawn u _ => decide (t = P.root ∧ p.held = none ∧ u ≠ P.root ∧ u ∉ p.spent ∧
      ∀ m ∈ D.shared, m ∈ p.live)
  | .join u _ => decide (t = P.root ∧ p.held = none ∧ u ∈ p.forked)
  | .branch _ _ _ _ => decide (p.held = none)
  | .loop _ _ _ => decide (p.held = none)

/-- The code keeps the rules from the phase `p` on, and ends in a phase in `fin`.
What is inside a branch or a loop leaves the phase as it was. -/
def check : (Phase S → Bool) → Phase S → Code S ℓ → Bool
  | fin, p, .done => fin p
  | fin, p, .create m k => admits P D t p (.create m k) && check fin (p.next (.create m k)) k
  | fin, p, .destroy m k => admits P D t p (.destroy m k) && check fin (p.next (.destroy m k)) k
  | fin, p, .lock m k => admits P D t p (.lock m k) && check fin (p.next (.lock m k)) k
  | fin, p, .unlock m k => admits P D t p (.unlock m k) && check fin (p.next (.unlock m k)) k
  | fin, p, .access v f k => admits P D t p (.access v f k) && check fin (p.next (.access v f k)) k
  | fin, p, .act f k => admits P D t p (.act f k) && check fin (p.next (.act f k)) k
  | fin, p, .spawn u k => admits P D t p (.spawn u k) && check fin (p.next (.spawn u k)) k
  | fin, p, .join u k => admits P D t p (.join u k) && check fin (p.next (.join u k)) k
  | fin, p, .branch c a b k => admits P D t p (.branch c a b k) &&
      check (fun q ↦ decide (q = p)) p a && check (fun q ↦ decide (q = p)) p b && check fin p k
  | fin, p, .loop c a k => admits P D t p (.loop c a k) &&
      check (fun q ↦ decide (q = p)) p a && check fin p k

def final (p : Phase S) : Bool :=
  decide (p.held = none ∧ (t = P.root → p.forked = [] ∧ p.live = []))

theorem check_admits {fin : Phase S → Bool} {p : Phase S} {k : Code S ℓ}
    (h : check P D t fin p k = true) : admits P D t p k = true := by
  cases k <;> simp_all [check, admits]

theorem check_seq {fin fin' : Phase S → Bool} {p : Phase S} {k r : Code S ℓ}
    (h : check P D t fin p k = true) (hr : ∀ q, fin q = true → check P D t fin' q r = true) :
    check P D t fin' p (k.seq r) = true := by
  induction k generalizing p with
  | done => exact hr p h
  | branch c a b k _ _ ih =>
    simp only [check, Bool.and_eq_true] at h
    simp only [Code.seq, check, Bool.and_eq_true]
    exact ⟨h.1, ih h.2⟩
  | loop c a k _ ih =>
    simp only [check, Bool.and_eq_true] at h
    simp only [Code.seq, check, Bool.and_eq_true]
    exact ⟨h.1, ih h.2⟩
  | _ =>
    rename_i ih
    simp only [check, Bool.and_eq_true] at h
    simp only [Code.seq, check, Bool.and_eq_true]
    exact ⟨h.1, ih h.2⟩

/-- Whatever a branch or a loop does first, it ends where its own code goes on. -/
theorem check_body {fin : Phase S → Bool} {p : Phase S} {k r : Code S ℓ}
    (h : check P D t (fun q ↦ decide (q = p)) p k = true) (hr : check P D t fin p r = true) :
    check P D t fin p (k.seq r) = true := by
  refine check_seq P D t h fun q hq ↦ ?_
  rw [of_decide_eq_true hq]
  exact hr

end Check

variable [DecidableEq S.Thread]
variable {P : Program S} {D : Discipline S} {s s' : State S} {t u : S.Thread}

theorem update_keeps {α : Type} (f : Phase S → α) (ph : S.Thread → Phase S) {p : Phase S}
    (h : f p = f (ph t)) (u : S.Thread) : f (update ph t p u) = f (ph u) := by
  by_cases hu : u = t
  · subst hu
    rw [update_self, h]
  · rw [update_of_ne hu]

variable [DecidableEq S.Lock]

structure Disciplined (P : Program S) (D : Discipline S) (s : State S) (ph : S.Thread → Phase S) :
    Prop where
  checked : ∀ t k l, s.threads t = .running k l → check P D t (final P t) (ph t) k = true
  held_iff : ∀ m t, s.locks m = .held t ↔ s.Running t ∧ (ph t).lock? = some m
  live_iff : ∀ m, s.locks m ≠ .absent ↔ m ∈ (ph P.root).live
  root : s.Running P.root
  forked_iff : ∀ t, t ∈ (ph P.root).forked ↔ t ≠ P.root ∧ s.Running t
  relies : ∀ t, s.Running t → ∀ m ∈ (ph t).live, m ∈ (ph P.root).live
  unborn : ∀ t, t ≠ P.root → t ∉ (ph P.root).spent → s.threads t = .unborn
  born : ∀ t, s.threads t = .unborn → ph t = .born D

structure Checked (P : Program S) (D : Discipline S) : Prop where
  root : check P D P.root (final P P.root) .root (P.body P.root) = true
  threads : ∀ t, t ≠ P.root → check P D t (final P t) (.born D) (P.body t) = true

namespace Disciplined

variable {ph : S.Thread → Phase S}

theorem start (h : Checked P D) (env : S.Env) (mem : ∀ v, S.Val v) :
    Disciplined P D (start P env mem) (update (fun _ ↦ .born D) P.root .root) := by
  have hroot : (Threads.start P env mem).threads P.root =
      .running (P.body P.root) (P.locals P.root) := by simp [Threads.start]
  have hne (t : S.Thread) (ht : t ≠ P.root) : (Threads.start P env mem).threads t = .unborn := by
    simp [Threads.start, ht]
  have hrun (t : S.Thread) (ht : (Threads.start P env mem).Running t) : t = P.root := by
    obtain ⟨k, l, hk⟩ := ht
    by_contra hn
    cases (hne t hn).symm.trans hk
  constructor
  · intro t k l hk
    obtain rfl := hrun t ⟨k, l, hk⟩
    rw [hroot, ThreadState.running.injEq] at hk
    rw [update_self, ← hk.1]
    exact h.root
  · intro m t
    refine iff_of_false (fun hl ↦ by cases hl) ?_
    rintro ⟨ht, hl⟩
    obtain rfl := hrun t ht
    simp [Phase.lock?, Phase.root] at hl
  · simp [Threads.start, Phase.root]
  · exact ⟨_, _, hroot⟩
  · intro t
    simp only [update_self, Phase.root, List.not_mem_nil, false_iff, not_and]
    exact fun ht hr ↦ ht (hrun t hr)
  · intro t ht
    obtain rfl := hrun t ht
    exact fun _ ↦ id
  · intro t ht _
    exact hne t ht
  · intro t ht
    have hn : t ≠ P.root := by
      rintro rfl
      cases hroot.symm.trans ht
    exact update_of_ne hn ..

variable {k k' : Code S (S.Local t)} {l l' : S.Local t} {p : Phase S}

/-- A step that starts and joins nobody. -/
theorem of_goto (h : Disciplined P D s ph) (ht : s.Running t) (hf : p.forked = (ph t).forked)
    (hs : p.spent = (ph t).spent)
    (hheld : ∀ m u, s'.locks m = .held u ↔ s.Running u ∧ (update ph t p u).lock? = some m)
    (hlive : ∀ m, s'.locks m ≠ .absent ↔ m ∈ (update ph t p P.root).live)
    (hrelies : ∀ u, s.Running u → ∀ m ∈ (update ph t p u).live, m ∈ (update ph t p P.root).live)
    (hth : s'.threads = s.threads) (hc : check P D t (final P t) p k' = true) :
    Disciplined P D (s'.goto t k' l') (update ph t p) := by
  have hrun (u : S.Thread) : (s'.goto t k' l').Running u ↔ s.Running u := by
    rw [State.running_goto]
    simp only [State.Running, hth]
    exact ⟨fun hu ↦ hu.elim (fun hu ↦ hu ▸ ht) id, .inr⟩
  constructor
  · intro u k₁ l₁ hu
    by_cases hut : u = t
    · subst hut
      rw [State.goto_threads_self, ThreadState.running.injEq] at hu
      rw [update_self, ← hu.1]
      exact hc
    · rw [State.goto_threads_ne hut, hth] at hu
      rw [update_of_ne hut]
      exact h.checked u k₁ l₁ hu
  · intro m u
    rw [State.goto_locks, hheld, hrun]
  · exact hlive
  · exact (hrun _).mpr h.root
  · intro u
    rw [update_keeps (·.forked) ph hf, h.forked_iff, hrun]
  · intro u hu
    exact hrelies u ((hrun u).mp hu)
  · intro u hu hsp
    rw [update_keeps (·.spent) ph hs] at hsp
    have hub := h.unborn u hu hsp
    have hut : u ≠ t := by
      rintro rfl
      obtain ⟨k₁, l₁, hk⟩ := ht
      cases hub.symm.trans hk
    rw [State.goto_threads_ne hut, hth]
    exact hub
  · intro u hu
    have hut : u ≠ t := by
      rintro rfl
      cases State.goto_threads_self.symm.trans hu
    rw [State.goto_threads_ne hut, hth] at hu
    rw [update_of_ne hut]
    exact h.born u hu

/-- A step that changes no lock and keeps the phase, except that it may act. -/
theorem quiet (h : Disciplined P D s ph) (ht : s.Running t) (hlock : p.lock? = (ph t).lock?)
    (hlive : p.live = (ph t).live) (hf : p.forked = (ph t).forked) (hs : p.spent = (ph t).spent)
    (hl : s'.locks = s.locks) (hth : s'.threads = s.threads)
    (hc : check P D t (final P t) p k' = true) :
    Disciplined P D (s'.goto t k' l') (update ph t p) := by
  refine h.of_goto ht hf hs ?_ ?_ ?_ hth hc
  · intro m u
    rw [hl, update_keeps (·.lock?) ph hlock, h.held_iff]
  · intro m
    rw [hl, update_keeps (·.live) ph hlive, h.live_iff]
  · intro u hu
    rw [update_keeps (·.live) ph hlive, update_keeps (·.live) ph hlive]
    exact h.relies u hu

/-- A lock that nobody held and nobody holds. -/
theorem held_of_unheld (h : Disciplined P D s ph) {m : S.Lock} {x : LockState S.Thread}
    (hx : ∀ u, x ≠ .held u) (hm : ∀ u, s.locks m ≠ .held u) (m' : S.Lock) (u : S.Thread) :
    update s.locks m x m' = .held u ↔ s.Running u ∧ (ph u).lock? = some m' := by
  rw [← h.held_iff]
  by_cases he : m' = m
  · subst he
    rw [update_self]
    exact iff_of_false (hx u) (hm u)
  · rw [update_of_ne he]

theorem create (h : Disciplined P D s ph) (ht : s.threads t = .running k l) {m : S.Lock}
    (hm : s.locks m = .absent) (hroot : t = P.root)
    (hc : check P D t (final P t) ((ph t).setLive (m :: (ph t).live)) k' = true) :
    Disciplined P D ((s.setLock m .free).goto t k' l')
      (update ph t ((ph t).setLive (m :: (ph t).live))) := by
  subst hroot
  refine h.of_goto ⟨k, l, ht⟩ rfl rfl ?_ ?_ ?_ rfl hc
  · intro m' u
    rw [update_keeps (·.lock?) ph ((ph P.root).setLive_lock? _)]
    exact h.held_of_unheld (by simp) (by simp [hm]) m' u
  · intro m'
    rw [update_self, Phase.setLive_live, List.mem_cons, ← h.live_iff]
    by_cases he : m' = m
    · simp [State.setLock, he]
    · simp [State.setLock, he]
  · intro u hu m' hm'
    rw [update_self]
    by_cases hut : u = P.root
    · subst hut
      rwa [update_self] at hm'
    · rw [update_of_ne hut] at hm'
      exact List.mem_cons_of_mem m (h.relies u hu m' hm')

theorem alone (h : Disciplined P D s ph) (hf : (ph P.root).forked = []) (hu : s.Running u) :
    u = P.root := by
  by_contra hn
  have hmem := (h.forked_iff u).mpr ⟨hn, hu⟩
  rw [hf] at hmem
  exact List.not_mem_nil hmem

theorem destroy (h : Disciplined P D s ph) (ht : s.threads t = .running k l) {m : S.Lock}
    (hm : s.locks m = .free) (hroot : t = P.root) (hf : (ph t).forked = [])
    (hc : check P D t (final P t) ((ph t).setLive ((ph t).live.filter (· ≠ m))) k' = true) :
    Disciplined P D ((s.setLock m .absent).goto t k' l')
      (update ph t ((ph t).setLive ((ph t).live.filter (· ≠ m)))) := by
  subst hroot
  refine h.of_goto ⟨k, l, ht⟩ rfl rfl ?_ ?_ ?_ rfl hc
  · intro m' u
    rw [update_keeps (·.lock?) ph ((ph P.root).setLive_lock? _)]
    exact h.held_of_unheld (by simp) (by simp [hm]) m' u
  · intro m'
    rw [update_self, Phase.setLive_live, List.mem_filter, ← h.live_iff]
    by_cases he : m' = m
    · simp [State.setLock, he]
    · simp [State.setLock, he]
  · intro u hu m' hm'
    rw [h.alone hf hu] at hm'
    exact hm'

theorem lock (h : Disciplined P D s ph) (ht : s.threads t = .running k l) {m : S.Lock}
    (hm : s.locks m = .free) (hheld : (ph t).held = none)
    (hc : check P D t (final P t) ((ph t).setHeld (some (m, false))) k' = true) :
    Disciplined P D ((s.setLock m (.held t)).goto t k' l')
      (update ph t ((ph t).setHeld (some (m, false)))) := by
  have hlive := update_keeps (·.live) ph ((ph t).setHeld_live (some (m, false)))
  refine h.of_goto ⟨k, l, ht⟩ rfl rfl ?_ ?_ ?_ rfl hc
  · intro m' u
    have hiff := h.held_iff m' u
    by_cases hut : u = t <;> by_cases he : m' = m
    · subst hut he
      rw [update_self]
      exact iff_of_true (update_self ..) ⟨⟨k, l, ht⟩, rfl⟩
    · subst hut
      have hne : s.locks m' ≠ .held u := by
        intro hl
        have hown := (hiff.mp hl).2
        rw [Phase.lock?, hheld] at hown
        cases hown
      simpa [State.setLock, Phase.lock?, he, hne] using fun _ ↦ Ne.symm he
    · subst he
      rw [hm] at hiff
      simpa [State.setLock, hut, Ne.symm hut] using hiff
    · simpa [State.setLock, he, hut] using hiff
  · intro m'
    rw [hlive, ← h.live_iff]
    by_cases he : m' = m
    · simp [State.setLock, he, hm]
    · simp [State.setLock, he]
  · intro u hu
    rw [hlive, hlive]
    exact h.relies u hu

theorem unlock (h : Disciplined P D s ph) (ht : s.threads t = .running k l) {m : S.Lock}
    (hm : s.locks m = .held t)
    (hc : check P D t (final P t) ((ph t).setHeld none) k' = true) :
    Disciplined P D ((s.setLock m .free).goto t k' l') (update ph t ((ph t).setHeld none)) := by
  have hlive := update_keeps (·.live) ph ((ph t).setHeld_live none)
  refine h.of_goto ⟨k, l, ht⟩ rfl rfl ?_ ?_ ?_ rfl hc
  · intro m' u
    have hiff := h.held_iff m' u
    have hown := ((h.held_iff m t).mp hm).2
    by_cases hut : u = t <;> by_cases he : m' = m
    · subst hut he
      simp [State.setLock, Phase.lock?]
    · subst hut
      have hne : s.locks m' ≠ .held u := by
        intro hl
        have := hown.symm.trans (hiff.mp hl).2
        exact he (Option.some.inj this).symm
      simp [State.setLock, Phase.lock?, he, hne]
    · subst he
      have hne : ¬ (s.Running u ∧ (ph u).lock? = some m') := by
        rw [← hiff, hm]
        simpa using Ne.symm hut
      simpa [State.setLock, hut] using hne
    · simpa [State.setLock, he, hut] using hiff
  · intro m'
    rw [hlive, ← h.live_iff]
    by_cases he : m' = m
    · simp [State.setLock, he, hm]
    · simp [State.setLock, he]
  · intro u hu
    rw [hlive, hlive]
    exact h.relies u hu

theorem spawn (hC : Checked P D) (h : Disciplined P D s ph) (ht : s.threads t = .running k l)
    (hu : s.threads u = .unborn) (hroot : t = P.root) (hne : u ≠ P.root)
    (hshared : ∀ m ∈ D.shared, m ∈ (ph t).live)
    (hc : check P D t (final P t) ((ph t).fork u) k' = true) :
    Disciplined P D ((s.goto u (P.body u) (P.locals u)).goto t k' l')
      (update ph t ((ph t).fork u)) := by
  subst hroot
  have hlive := update_keeps (·.live) ph ((ph P.root).fork_live u)
  have hlock := update_keeps (·.lock?) ph ((ph P.root).fork_lock? u)
  have hborn : ph u = .born D := h.born u hu
  have hphu : update ph P.root ((ph P.root).fork u) u = .born D := by rw [update_of_ne hne, hborn]
  have hur : ¬ s.Running u := by
    rintro ⟨k₁, l₁, hk⟩
    cases hu.symm.trans hk
  have hrun (v : S.Thread) : ((s.goto u (P.body u) (P.locals u)).goto P.root k' l').Running v ↔
      v = u ∨ s.Running v := by
    rw [State.running_goto, State.running_goto]
    refine ⟨fun hv ↦ hv.elim (fun hv ↦ .inr ?_) id, .inr⟩
    rw [hv]
    exact ⟨k, l, ht⟩
  constructor
  · intro v k₁ l₁ hv
    by_cases hvr : v = P.root
    · subst hvr
      rw [State.goto_threads_self, ThreadState.running.injEq] at hv
      rw [update_self, ← hv.1]
      exact hc
    · rw [State.goto_threads_ne hvr] at hv
      rw [update_of_ne hvr]
      by_cases hvu : v = u
      · subst hvu
        rw [State.goto_threads_self, ThreadState.running.injEq] at hv
        rw [hborn, ← hv.1]
        exact hC.threads v hvr
      · rw [State.goto_threads_ne hvu] at hv
        exact h.checked v k₁ l₁ hv
  · intro m v
    rw [hlock, hrun, State.goto_locks, State.goto_locks, h.held_iff]
    refine ⟨fun hv ↦ ⟨.inr hv.1, hv.2⟩, fun hv ↦ ⟨hv.1.resolve_left ?_, hv.2⟩⟩
    rintro rfl
    rw [hborn] at hv
    cases hv.2
  · intro m
    rw [hlive]
    exact h.live_iff m
  · exact (hrun _).mpr (.inr h.root)
  · intro v
    rw [update_self, Phase.fork_forked, List.mem_cons, h.forked_iff, hrun]
    constructor
    · rintro (rfl | hv)
      · exact ⟨hne, .inl rfl⟩
      · exact ⟨hv.1, .inr hv.2⟩
    · rintro ⟨hv, rfl | hr⟩
      · exact .inl rfl
      · exact .inr ⟨hv, hr⟩
  · intro v hv m hm
    rw [hlive] at hm ⊢
    rcases (hrun v).mp hv with rfl | hr
    · rw [hborn] at hm
      exact hshared m hm
    · exact h.relies v hr m hm
  · intro v hv hsp
    rw [update_self, Phase.fork_spent, List.mem_cons, not_or] at hsp
    rw [State.goto_threads_ne hv, State.goto_threads_ne hsp.1]
    exact h.unborn v hv hsp.2
  · intro v hv
    have hvr : v ≠ P.root := by
      rintro rfl
      cases State.goto_threads_self.symm.trans hv
    have hvu : v ≠ u := by
      rintro rfl
      rw [State.goto_threads_ne hvr, State.goto_threads_self] at hv
      cases hv
    rw [State.goto_threads_ne hvr, State.goto_threads_ne hvu] at hv
    rw [update_of_ne hvr]
    exact h.born v hv

theorem held_done (h : Disciplined P D s ph) {l : S.Local u} (hu : s.threads u = .running .done l) :
    (ph u).held = none :=
  (of_decide_eq_true (h.checked u .done l hu)).1

theorem join (h : Disciplined P D s ph) (ht : s.threads t = .running k l) {l₁ : S.Local u}
    (hu : s.threads u = .running .done l₁) (hroot : t = P.root) (hne : u ≠ P.root)
    (hc : check P D t (final P t) ((ph t).setForked ((ph t).forked.filter (· ≠ u))) k' = true) :
    Disciplined P D (State.goto { s with threads := update s.threads u .joined } t k' l')
      (update ph t ((ph t).setForked ((ph t).forked.filter (· ≠ u)))) := by
  subst hroot
  have hlive := update_keeps (·.live) ph
    ((ph P.root).setForked_live ((ph P.root).forked.filter (· ≠ u)))
  have hlock := update_keeps (·.lock?) ph
    ((ph P.root).setForked_lock? ((ph P.root).forked.filter (· ≠ u)))
  have hspent := update_keeps (·.spent) ph
    ((ph P.root).setForked_spent ((ph P.root).forked.filter (· ≠ u)))
  have hother (v : S.Thread) (hv : v ≠ u) (hvr : v ≠ P.root) :
      (State.goto { s with threads := update s.threads u .joined } P.root k' l').threads v =
        s.threads v := by
    rw [State.goto_threads_ne hvr]
    exact update_of_ne hv ..
  have hjoined : (State.goto { s with threads := update s.threads u .joined } P.root k' l').threads
      u = .joined := by
    rw [State.goto_threads_ne hne]
    exact update_self ..
  have hrun (v : S.Thread) :
      (State.goto { s with threads := update s.threads u .joined } P.root k' l').Running v ↔
        v ≠ u ∧ s.Running v := by
    by_cases hvr : v = P.root
    · subst hvr
      exact iff_of_true ⟨_, _, State.goto_threads_self⟩ ⟨hne.symm, k, l, ht⟩
    · by_cases hv : v = u
      · subst hv
        simp [State.Running, hjoined]
      · simp [State.Running, hother v hv hvr, hv]
  constructor
  · intro v k₁ l₂ hv
    by_cases hvr : v = P.root
    · subst hvr
      rw [State.goto_threads_self, ThreadState.running.injEq] at hv
      rw [update_self, ← hv.1]
      exact hc
    · rw [update_of_ne hvr]
      obtain ⟨hvu, _⟩ := (hrun v).mp ⟨k₁, l₂, hv⟩
      exact h.checked v k₁ l₂ ((hother v hvu hvr).symm.trans hv)
  · intro m v
    rw [hlock, hrun, State.goto_locks, and_assoc, ← h.held_iff, iff_and_self]
    rintro hl rfl
    have hown := ((h.held_iff m v).mp hl).2
    rw [Phase.lock?, h.held_done hu] at hown
    cases hown
  · intro m
    rw [hlive]
    exact h.live_iff m
  · exact (hrun _).mpr ⟨hne.symm, h.root⟩
  · intro v
    rw [update_self, Phase.setForked_forked, List.mem_filter, h.forked_iff, hrun]
    simp only [ne_eq, decide_eq_true_eq]
    tauto
  · intro v hv m hm
    rw [hlive] at hm ⊢
    exact h.relies v ((hrun v).mp hv).2 m hm
  · intro v hv hsp
    rw [hspent] at hsp
    have hub := h.unborn v hv hsp
    have hvu : v ≠ u := by
      rintro rfl
      cases hub.symm.trans hu
    rw [hother v hvu hv, hub]
  · intro v hv
    have hvr : v ≠ P.root := by
      rintro rfl
      cases State.goto_threads_self.symm.trans hv
    have hvu : v ≠ u := by
      rintro rfl
      cases hjoined.symm.trans hv
    rw [update_of_ne hvr]
    exact h.born v ((hother v hvu hvr).symm.trans hv)

variable [DecidableEq S.Var] {i : S.Input}

theorem step (hC : Checked P D) (h : Disciplined P D s ph) (ht : s.threads t = .running k l)
    (hs : Stepped P s t i l k s') : Disciplined P D s' (update ph t ((ph t).next k)) := by
  have hc := h.checked t k l ht
  have hrun : s.Running t := ⟨k, l, ht⟩
  cases hs with
  | create m k hm =>
    simp only [check, admits, Bool.and_eq_true, decide_eq_true_eq] at hc
    exact h.create ht hm hc.1.1 hc.2
  | destroy m k hm =>
    simp only [check, admits, Bool.and_eq_true, decide_eq_true_eq] at hc
    exact h.destroy ht hm hc.1.1 hc.1.2.2.2 hc.2
  | lock m k hm =>
    simp only [check, admits, Bool.and_eq_true, decide_eq_true_eq] at hc
    exact h.lock ht hm hc.1.1 hc.2
  | unlock m k hm =>
    simp only [check, Bool.and_eq_true] at hc
    exact h.unlock ht hm hc.2
  | access v f k =>
    simp only [check, Bool.and_eq_true] at hc
    exact h.quiet hrun rfl rfl rfl rfl rfl rfl hc.2
  | act f k e l' hf =>
    simp only [check, Bool.and_eq_true] at hc
    refine h.quiet hrun ?_ rfl rfl rfl rfl rfl hc.2
    simp [Phase.next, Phase.lock?, Function.comp_def]
  | spawn u k hu =>
    simp only [check, admits, Bool.and_eq_true, decide_eq_true_eq] at hc
    obtain ⟨⟨hroot, _, hne, _, hshared⟩, hc⟩ := hc
    exact spawn hC h ht hu hroot hne hshared hc
  | join u k l' hu =>
    simp only [check, admits, Bool.and_eq_true, decide_eq_true_eq] at hc
    obtain ⟨⟨hroot, _, hmem⟩, hc⟩ := hc
    subst hroot
    exact h.join ht hu rfl ((h.forked_iff u).mp hmem).1 hc
  | branch c a b k =>
    simp only [check, Bool.and_eq_true] at hc
    refine h.quiet hrun rfl rfl rfl rfl rfl rfl ?_
    by_cases hcl : c l
    · rw [if_pos hcl]
      exact check_body P D t hc.1.1.2 hc.2
    · rw [if_neg hcl]
      exact check_body P D t hc.1.2 hc.2
  | loop c a k =>
    refine h.quiet hrun rfl rfl rfl rfl rfl rfl ?_
    by_cases hcl : c s.env l
    · rw [if_pos hcl]
      have hbody := hc
      simp only [check, Bool.and_eq_true] at hbody
      exact check_body P D t hbody.1.2 hc
    · rw [if_neg hcl]
      simp only [check, Bool.and_eq_true] at hc
      exact hc.2

end Disciplined

variable [DecidableEq S.Var] {env : S.Env} {mem : ∀ v, S.Val v} {h : List (Move S)}

theorem run_disciplined (hC : Checked P D) (hr : Run (step P) (start P env mem) h s) :
    ∃ ph, Disciplined P D s ph := by
  refine hr.invariant (I := fun s ↦ ∃ ph, Disciplined P D s ph) ⟨_, .start hC env mem⟩ ?_
  intro s e s' hph he
  obtain ⟨ph, hd⟩ := hph
  obtain ⟨k, l, ht, hs⟩ := step_stepped he
  exact ⟨_, hd.step hC ht hs⟩

end BmsFirmware.Lib.Threads
