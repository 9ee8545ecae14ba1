import BmsFirmware.Lib.Outline

namespace BmsFirmware.Lib.Threads

open Function Lib.History

/-- What a section leaves in the variable that it accesses last. `alone` tells that
this access is its only statement. -/
structure Commit (S : Signature) (v : S.Var) where
  thread : S.Thread
  alone : Bool
  value : S.Val v

/-- The variables together with all commits to them, the latest first. -/
abbrev Signature.recorded (S : Signature) : Signature where
  Thread := S.Thread
  Lock := S.Lock
  Var := S.Var
  Val := fun v ↦ S.Val v × List (Commit S v)
  Env := S.Env
  Input := S.Input
  Local := S.Local

variable {S : Signature} {ℓ : Type}

namespace Code

def noted (t : S.Thread) {v : S.Var} (y : S.Val v) (past : List (Commit S v)) :
    Option Bool → Code S ℓ → List (Commit S v)
  | some alone, .unlock _ _ => ⟨t, alone, y⟩ :: past
  | _, _ => past

/-- The code of the thread `t` with its commits recorded. Inside a section `inside` tells
whether this is its first statement. -/
def record (t : S.Thread) (inside : Option Bool) : Code S ℓ → Code S.recorded ℓ
  | .done => .done
  | .create m k => .create m (k.record t none)
  | .destroy m k => .destroy m (k.record t none)
  | .lock m k => .lock m (k.record t (some true))
  | .unlock m k => .unlock m (k.record t none)
  | .access v f k => .access v
      (fun x l ↦ (((f x.1 l).1, k.noted t (f x.1 l).1 x.2 inside), (f x.1 l).2))
      (k.record t (inside.map fun _ ↦ false))
  | .act f k => .act f (k.record t (inside.map fun _ ↦ false))
  | .spawn u k => .spawn u (k.record t none)
  | .join u k => .join u (k.record t none)
  | .branch c p q k => .branch c (p.record t none) (q.record t none) (k.record t none)
  | .loop c p k => .loop c (p.record t none) (k.record t none)

theorem noted_seq {t : S.Thread} {inside : Option Bool} {v : S.Var} {y : S.Val v}
    {past : List (Commit S v)} {p : Code S ℓ} (hp : p ≠ .done) (q : Code S ℓ) :
    (p.seq q).noted t y past inside = p.noted t y past inside := by
  cases p with
  | done => exact absurd rfl hp
  | _ => cases inside <;> rfl

/-- The first code does what the second one does, and may record something. -/
inductive Erases : Code S.recorded ℓ → Code S ℓ → Prop
  | done : Erases .done .done
  | create (m : S.Lock) {k' : Code S.recorded ℓ} {k : Code S ℓ} (hk : Erases k' k) :
      Erases (.create m k') (.create m k)
  | destroy (m : S.Lock) {k' : Code S.recorded ℓ} {k : Code S ℓ} (hk : Erases k' k) :
      Erases (.destroy m k') (.destroy m k)
  | lock (m : S.Lock) {k' : Code S.recorded ℓ} {k : Code S ℓ} (hk : Erases k' k) :
      Erases (.lock m k') (.lock m k)
  | unlock (m : S.Lock) {k' : Code S.recorded ℓ} {k : Code S ℓ} (hk : Erases k' k) :
      Erases (.unlock m k') (.unlock m k)
  | access (v : S.Var) {f' : S.recorded.Val v → ℓ → S.recorded.Val v × ℓ}
      {f : S.Val v → ℓ → S.Val v × ℓ} {k' : Code S.recorded ℓ} {k : Code S ℓ}
      (hf : ∀ x l, (f' x l).1.1 = (f x.1 l).1 ∧ (f' x l).2 = (f x.1 l).2) (hk : Erases k' k) :
      Erases (.access v f' k') (.access v f k)
  | act (f : S.Input → S.Env → ℓ → Option (S.Env × ℓ)) {k' : Code S.recorded ℓ} {k : Code S ℓ}
      (hk : Erases k' k) : Erases (.act f k') (.act f k)
  | spawn (u : S.Thread) {k' : Code S.recorded ℓ} {k : Code S ℓ} (hk : Erases k' k) :
      Erases (.spawn u k') (.spawn u k)
  | join (u : S.Thread) {k' : Code S.recorded ℓ} {k : Code S ℓ} (hk : Erases k' k) :
      Erases (.join u k') (.join u k)
  | branch (c : ℓ → Bool) {p' q' k' : Code S.recorded ℓ} {p q k : Code S ℓ} (hp : Erases p' p)
      (hq : Erases q' q) (hk : Erases k' k) : Erases (.branch c p' q' k') (.branch c p q k)
  | loop (c : S.Env → ℓ → Bool) {p' k' : Code S.recorded ℓ} {p k : Code S ℓ} (hp : Erases p' p)
      (hk : Erases k' k) : Erases (.loop c p' k') (.loop c p k)

theorem Erases.seq {p' r' : Code S.recorded ℓ} {p r : Code S ℓ} (hp : Erases p' p)
    (hr : Erases r' r) : Erases (p'.seq r') (p.seq r) := by
  induction hp with
  | done => exact hr
  | create m _ ih => exact .create m ih
  | destroy m _ ih => exact .destroy m ih
  | lock m _ ih => exact .lock m ih
  | unlock m _ ih => exact .unlock m ih
  | access v hf _ ih => exact .access v hf ih
  | act f _ ih => exact .act f ih
  | spawn u _ ih => exact .spawn u ih
  | join u _ ih => exact .join u ih
  | branch c hp hq _ _ _ ih => exact .branch c hp hq ih
  | loop c hp _ _ ih => exact .loop c hp ih

theorem record_erases (t : S.Thread) (inside : Option Bool) (k : Code S ℓ) :
    Erases (k.record t inside) k := by
  induction k generalizing inside with
  | done => exact .done
  | create m k ih => exact .create m (ih none)
  | destroy m k ih => exact .destroy m (ih none)
  | lock m k ih => exact .lock m (ih (some true))
  | unlock m k ih => exact .unlock m (ih none)
  | access v f k ih => exact .access v (fun _ _ ↦ ⟨rfl, rfl⟩) (ih _)
  | act f k ih => exact .act f (ih _)
  | spawn u k ih => exact .spawn u (ih none)
  | join u k ih => exact .join u (ih none)
  | branch c p q k ihp ihq ih => exact .branch c (ihp none) (ihq none) (ih none)
  | loop c p k ihp ih => exact .loop c (ihp none) (ih none)

end Code

def Program.recorded (P : Program S) : Program S.recorded where
  root := P.root
  body := fun t ↦ (P.body t).record t none
  locals := P.locals

def Discipline.recorded (D : Discipline S) : Discipline S.recorded where
  guard := fun v ↦
    match D.guard v with
    | .lock m => .lock m
    | .thread t => .thread t
  shared := D.shared

inductive ThreadState.Erases :
    ThreadState (Code S.recorded ℓ) ℓ → ThreadState (Code S ℓ) ℓ → Prop
  | unborn : Erases .unborn .unborn
  | running {k' : Code S.recorded ℓ} {k : Code S ℓ} (l : ℓ) (h : Code.Erases k' k) :
      Erases (.running k' l) (.running k l)
  | joined : Erases .joined .joined

structure State.Erases (s' : State S.recorded) (s : State S) : Prop where
  env : s'.env = s.env
  mem : ∀ v, (s'.mem v).1 = s.mem v
  locks : s'.locks = s.locks
  threads : ∀ t, (s'.threads t).Erases (s.threads t)

namespace State.Erases

variable {s' : State S.recorded} {s : State S} {t u : S.Thread}

theorem running (h : s'.Erases s) {k : Code S (S.Local t)} {l : S.Local t}
    (ht : s.threads t = .running k l) :
    ∃ k' : Code S.recorded (S.Local t), s'.threads t = .running k' l ∧ k'.Erases k := by
  have herases := h.threads t
  rw [ht] at herases
  generalize s'.threads t = x at herases
  cases herases with
  | running _ hk => exact ⟨_, rfl, hk⟩

theorem unborn (h : s'.Erases s) (hu : s.threads u = .unborn) : s'.threads u = .unborn := by
  have herases := h.threads u
  rw [hu] at herases
  generalize s'.threads u = x at herases
  cases herases
  rfl

theorem booting {P : Program S} (h : s'.Erases s) (hb : Booting P.recorded s') : Booting P s := by
  refine ⟨fun u hu ↦ ?_, ?_⟩
  · have herases := h.threads u
    rw [hb.alone u hu] at herases
    generalize s.threads u = x at herases
    cases herases
    rfl
  · obtain ⟨k', l, hk', hne⟩ := hb.root
    have herases := h.threads P.root
    rw [show s'.threads P.root = .running k' l from hk'] at herases
    generalize s.threads P.root = x at herases ⊢
    cases herases with
    | @running _ k _ hk =>
      refine ⟨k, l, rfl, ?_⟩
      rintro rfl
      cases hk
      exact hne rfl

theorem setLock [DecidableEq S.Lock] (h : s'.Erases s) (m : S.Lock) (x : LockState S.Thread) :
    (s'.setLock m x).Erases (s.setLock m x) := by
  refine ⟨h.env, h.mem, ?_, h.threads⟩
  rw [State.setLock, State.setLock, h.locks]

theorem store [DecidableEq S.Var] (h : s'.Erases s) (v : S.Var) {x' : S.recorded.Val v}
    {x : S.Val v} (hx : x'.1 = x) : (s'.store v x').Erases (s.store v x) := by
  refine ⟨h.env, fun w ↦ ?_, h.locks, h.threads⟩
  by_cases hw : w = v
  · subst hw
    simp only [State.store, update_self, hx]
  · simp only [State.store, update_of_ne hw, h.mem]

variable [DecidableEq S.Thread]

theorem start (P : Program S) (env : S.Env) (mem : ∀ v, S.Val v) :
    State.Erases (Threads.start P.recorded env fun v ↦ (mem v, [])) (Threads.start P env mem) := by
  refine ⟨rfl, fun _ ↦ rfl, rfl, fun t ↦ ?_⟩
  by_cases ht : t = P.root
  · subst ht
    simp only [Threads.start, Program.recorded, update_self]
    exact .running _ (Code.record_erases ..)
  · simp only [Threads.start, Program.recorded, update_of_ne ht]
    exact .unborn

theorem goto (h : s'.Erases s) {k' : Code S.recorded (S.Local t)} {k : Code S (S.Local t)}
    (hk : k'.Erases k) (l : S.Local t) : (s'.goto t k' l).Erases (s.goto t k l) := by
  refine ⟨h.env, h.mem, h.locks, fun (u : S.Thread) ↦ ?_⟩
  by_cases hu : u = t
  · subst hu
    simp only [State.goto, update_self]
    exact .running l hk
  · simp only [State.goto, update_of_ne hu]
    exact h.threads u

theorem joined (h : s'.Erases s) (u : S.Thread) :
    State.Erases { s' with threads := update s'.threads u .joined }
      { s with threads := update s.threads u .joined } := by
  refine ⟨h.env, h.mem, h.locks, fun v ↦ ?_⟩
  by_cases hv : v = u
  · subst hv
    simp only [update_self]
    exact .joined
  · simp only [update_of_ne hv]
    exact h.threads v

variable [DecidableEq S.Lock] [DecidableEq S.Var] {P : Program S}

theorem exec (h : s'.Erases s) {i : S.Input} {l : S.Local t} {k : Code S (S.Local t)}
    {s₁ : State S} (hs : Stepped P s t i l k s₁) {k' : Code S.recorded (S.Local t)}
    (hk : k'.Erases k) : ∃ s₁', Threads.exec P.recorded s' t i l k' = some s₁' ∧ s₁'.Erases s₁ := by
  cases hs with
  | create m k hm =>
    cases hk with
    | create _ hk => exact ⟨_, if_pos (by rw [h.locks, hm]), (h.setLock m .free).goto hk l⟩
  | destroy m k hm =>
    cases hk with
    | destroy _ hk => exact ⟨_, if_pos (by rw [h.locks, hm]), (h.setLock m .absent).goto hk l⟩
  | lock m k hm =>
    cases hk with
    | lock _ hk => exact ⟨_, if_pos (by rw [h.locks, hm]), (h.setLock m (.held t)).goto hk l⟩
  | unlock m k hm =>
    cases hk with
    | unlock _ hk => exact ⟨_, if_pos (by rw [h.locks, hm]), (h.setLock m .free).goto hk l⟩
  | access v f k =>
    cases hk with
    | access _ hf hk =>
      obtain ⟨hval, hlocal⟩ := hf (s'.mem v) l
      rw [h.mem v] at hval hlocal
      refine ⟨_, rfl, ?_⟩
      rw [← hlocal]
      exact (h.store v hval).goto hk _
  | act f k e l' hf =>
    cases hk with
    | act _ hk =>
      refine ⟨_, congrArg (Option.map _) ((congrArg (f i · l) h.env).trans hf), ?_⟩
      have he : State.Erases { s' with env := e } { s with env := e } :=
        ⟨rfl, h.mem, h.locks, h.threads⟩
      exact he.goto hk l'
  | spawn u k hu =>
    cases hk with
    | spawn _ hk =>
      refine ⟨_, by simp only [Threads.exec, h.unborn hu]; rfl, ?_⟩
      exact (h.goto (Code.record_erases u none (P.body u)) (P.locals u)).goto hk l
  | join u k l' hu =>
    cases hk with
    | join _ hk =>
      obtain ⟨k', hk', hdone⟩ := h.running hu
      cases hdone
      exact ⟨_, by simp only [Threads.exec, hk'], (h.joined u).goto hk l⟩
  | branch c p q k =>
    cases hk with
    | branch _ hp hq hk =>
      refine ⟨_, rfl, h.goto ?_ l⟩
      split_ifs
      · exact hp.seq hk
      · exact hq.seq hk
  | loop c p k =>
    cases hk with
    | loop _ hp hk =>
      refine ⟨_, rfl, h.goto ?_ l⟩
      rw [h.env]
      split_ifs
      · exact hp.seq (.loop c hp hk)
      · exact hk

theorem step (h : s'.Erases s) {e : Move S} {s₁ : State S} (he : step P s e = some s₁) :
    ∃ s₁', Threads.step P.recorded s' ⟨e.thread, e.input⟩ = some s₁' ∧ s₁'.Erases s₁ := by
  obtain ⟨k, l, ht, hs⟩ := step_stepped he
  obtain ⟨k', ht', hk⟩ := h.running ht
  obtain ⟨s₁', hs', hs₁⟩ := h.exec hs hk
  exact ⟨s₁', (step_of_running ht').trans hs', hs₁⟩

end State.Erases

section Run

variable [DecidableEq S.Thread] [DecidableEq S.Lock] [DecidableEq S.Var] {P : Program S}
  {env : S.Env} {mem : ∀ v, S.Val v} {h : List (Move S)} {s : State S}

def Move.recorded (e : Move S) : Move S.recorded := ⟨e.thread, e.input⟩

/-- The commits to a variable in a run, the latest first, as the recording program keeps them. -/
def commits (P : Program S) (env : S.Env) (mem : ∀ v, S.Val v) (h : List (Move S)) (v : S.Var) :
    List (Commit S v) :=
  match replay (step P.recorded) (start P.recorded env fun v ↦ (mem v, []))
      (h.map Move.recorded) with
  | some s' => (s'.mem v).2
  | none => []

/-- The recording program makes every run of the program. -/
theorem run_recorded (hr : Run (step P) (start P env mem) h s) : ∃ s' : State S.recorded,
    Run (step P.recorded) (start P.recorded env fun v ↦ (mem v, [])) (h.map Move.recorded) s' ∧
      s'.Erases s ∧ ∀ v, (s'.mem v).2 = commits P env mem h v := by
  have hrun : ∃ s' : State S.recorded,
      Run (step P.recorded) (start P.recorded env fun v ↦ (mem v, [])) (h.map Move.recorded) s' ∧
        s'.Erases s := by
    induction hr with
    | start => exact ⟨_, .start, .start P env mem⟩
    | next _ he ih =>
      obtain ⟨s', hr', hs'⟩ := ih
      obtain ⟨s₁', he', hs₁'⟩ := hs'.step he
      exact ⟨s₁', hr'.next he', hs₁'⟩
  obtain ⟨s', hr', hs'⟩ := hrun
  refine ⟨s', hr', hs', fun v ↦ ?_⟩
  rw [commits, run_iff_replay.mp hr']

end Run

section Seq

variable [DecidableEq S.Var] {A : Abstraction S.recorded} {t : S.Thread}
  {Q : S.Local t → A.View t → Prop}

theorem wp_record_seq_aux (p q : Code S (S.Local t)) :
    (∀ l x, wp A t (p.record t none) (wp A t (q.record t none) Q) l x →
      wp A t ((p.seq q).record t none) Q l x) ∧
    ∀ first e₀ m₀ x e m l,
      wpSection A t e₀ m₀ x (p.record t (some first)) (wp A t (q.record t none) Q) e m l →
      wpSection A t e₀ m₀ x ((p.seq q).record t (some first)) Q e m l := by
  induction p with
  | done => exact ⟨fun _ _ h ↦ h, fun _ _ _ _ _ _ _ h ↦ h.elim⟩
  | create m k ih => exact ⟨ih.1, fun _ _ _ _ _ _ _ h ↦ h.elim⟩
  | destroy m k ih => exact ⟨ih.1, fun _ _ _ _ _ _ _ h ↦ h.elim⟩
  | lock m k ih =>
    exact ⟨fun l x h e m' ↦ ih.2 true e m' x e m' l (h e m'), fun _ _ _ _ _ _ _ h ↦ h.elim⟩
  | unlock m k ih => exact ⟨ih.1, fun _ _ _ _ _ _ _ h ↦ Simulates.mono h (ih.1 _)⟩
  | access v f k ih =>
    refine ⟨fun l x h e m ↦ (h e m).mono (ih.1 _), fun first e₀ m₀ x e m l h ↦ ?_⟩
    have hk : k ≠ .done := by
      rintro rfl
      exact h
    have hsec := ih.2 false e₀ m₀ x e _ _ h
    simp only [Code.seq, Code.record, wpSection, Code.noted_seq hk]
    exact hsec
  | act f k ih =>
    exact ⟨fun l x h i e m r hr ↦ (h i e m r hr).mono (ih.1 _),
      fun _ _ _ _ _ _ _ h i r hr ↦ ih.2 _ _ _ _ _ _ _ (h i r hr)⟩
  | spawn u k ih => exact ⟨ih.1, fun _ _ _ _ _ _ _ h ↦ h.elim⟩
  | join u k ih => exact ⟨fun l x h e m ↦ (h e m).mono (ih.1 _), fun _ _ _ _ _ _ _ h ↦ h.elim⟩
  | branch c a b k _ _ ih =>
    refine ⟨fun l x h ↦ ?_, fun _ _ _ _ _ _ _ h ↦ h.elim⟩
    simp only [Code.seq, Code.record, wp] at h ⊢
    split_ifs at h ⊢
    · exact wp_mono ih.1 h
    · exact wp_mono ih.1 h
  | loop c a k _ ih =>
    refine ⟨fun l x h ↦ ?_, fun _ _ _ _ _ _ _ h ↦ h.elim⟩
    obtain ⟨I, hI, hinv⟩ := h
    refine ⟨I, hI, fun l' x' hx e m ↦ (hinv l' x' hx e m).mono fun x'' h ↦ ?_⟩
    split_ifs at h ⊢
    · exact h
    · exact ih.1 l' x'' h

/-- The rule for two codes one behind the other, recorded together. -/
theorem wp_record_seq {p q : Code S (S.Local t)} {l : S.Local t} {x : A.View t}
    (h : wp A t (p.record t none) (wp A t (q.record t none) Q) l x) :
    wp A t ((p.seq q).record t none) Q l x :=
  (wp_record_seq_aux p q).1 l x h

end Seq

end BmsFirmware.Lib.Threads
