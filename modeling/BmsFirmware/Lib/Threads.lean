import BmsFirmware.Lib.History
import Mathlib.Logic.Function.Basic
import Mathlib.Tactic.SplitIfs

namespace BmsFirmware.Lib.Threads

open Function Lib.History

/-- What a program with threads is made of. The environment is all that is
accessed atomically (clocks, flags); inputs are what a step takes from outside. -/
structure Signature where
  Thread : Type
  Lock : Type
  Var : Type
  Val : Var → Type
  Env : Type
  Input : Type
  Local : Thread → Type

/-- The code that a thread with the locals `ℓ` still has in front of it. An
`access` reads and writes one shared variable without any protection of its own,
an `act` is one atomic step on the environment, and blocks while it is `none`. -/
inductive Code (S : Signature) (ℓ : Type)
  | done
  | create (m : S.Lock) (k : Code S ℓ)
  | destroy (m : S.Lock) (k : Code S ℓ)
  | lock (m : S.Lock) (k : Code S ℓ)
  | unlock (m : S.Lock) (k : Code S ℓ)
  | access (v : S.Var) (f : S.Val v → ℓ → S.Val v × ℓ) (k : Code S ℓ)
  | act (f : S.Input → S.Env → ℓ → Option (S.Env × ℓ)) (k : Code S ℓ)
  | spawn (t : S.Thread) (k : Code S ℓ)
  | join (t : S.Thread) (k : Code S ℓ)
  | branch (c : ℓ → Bool) (p q k : Code S ℓ)
  | loop (c : S.Env → ℓ → Bool) (p k : Code S ℓ)

inductive LockState (τ : Type)
  | absent
  | free
  | held (t : τ)
deriving DecidableEq, Repr

inductive ThreadState (κ ℓ : Type)
  | unborn
  | running (k : κ) (l : ℓ)
  | joined

structure State (S : Signature) where
  env : S.Env
  mem : ∀ v, S.Val v
  locks : S.Lock → LockState S.Thread
  threads : ∀ t, ThreadState (Code S (S.Local t)) (S.Local t)

structure Program (S : Signature) where
  root : S.Thread
  body : ∀ t, Code S (S.Local t)
  locals : ∀ t, S.Local t

structure Move (S : Signature) where
  thread : S.Thread
  input : S.Input

variable {S : Signature} {ℓ : Type}

namespace Code

def seq : Code S ℓ → Code S ℓ → Code S ℓ
  | done, r => r
  | create m k, r => create m (k.seq r)
  | destroy m k, r => destroy m (k.seq r)
  | lock m k, r => lock m (k.seq r)
  | unlock m k, r => unlock m (k.seq r)
  | access v f k, r => access v f (k.seq r)
  | act f k, r => act f (k.seq r)
  | spawn t k, r => spawn t (k.seq r)
  | join t k, r => join t (k.seq r)
  | branch c p q k, r => branch c p q (k.seq r)
  | loop c p k, r => loop c p (k.seq r)

@[simp] theorem done_seq (r : Code S ℓ) : done.seq r = r := rfl

@[simp] theorem seq_done (k : Code S ℓ) : k.seq done = k := by
  induction k <;> simp_all [seq]

def assign (f : ℓ → ℓ) (k : Code S ℓ) : Code S ℓ := act (fun _ e l ↦ some (e, f l)) k

end Code

namespace State

variable (s : State S) (t : S.Thread)

def Running : Prop := ∃ k l, s.threads t = .running k l

variable [DecidableEq S.Thread]

def goto (k : Code S (S.Local t)) (l : S.Local t) : State S :=
  { s with threads := update s.threads t (.running k l) }

variable {s t} {u : S.Thread} {k : Code S (S.Local t)} {l : S.Local t}

@[simp] theorem goto_env : (s.goto t k l).env = s.env := rfl

@[simp] theorem goto_mem : (s.goto t k l).mem = s.mem := rfl

@[simp] theorem goto_locks : (s.goto t k l).locks = s.locks := rfl

@[simp] theorem goto_threads_self : (s.goto t k l).threads t = .running k l := update_self ..

theorem goto_threads_ne (h : u ≠ t) : (s.goto t k l).threads u = s.threads u := update_of_ne h ..

theorem running_goto : (s.goto t k l).Running u ↔ u = t ∨ s.Running u := by
  by_cases h : u = t
  · subst h
    exact iff_of_true ⟨k, l, goto_threads_self⟩ (.inl rfl)
  · simp only [Running, goto_threads_ne h, h, false_or]

variable (s) [DecidableEq S.Lock] [DecidableEq S.Var]

def setLock (m : S.Lock) (x : LockState S.Thread) : State S :=
  { s with locks := update s.locks m x }

def store (v : S.Var) (x : S.Val v) : State S := { s with mem := update s.mem v x }

end State

variable [DecidableEq S.Thread] [DecidableEq S.Lock] [DecidableEq S.Var]

def exec (P : Program S) (s : State S) (t : S.Thread) (i : S.Input) (l : S.Local t) :
    Code S (S.Local t) → Option (State S)
  | .done => none
  | .create m k => if s.locks m = .absent then some ((s.setLock m .free).goto t k l) else none
  | .destroy m k => if s.locks m = .free then some ((s.setLock m .absent).goto t k l) else none
  | .lock m k => if s.locks m = .free then some ((s.setLock m (.held t)).goto t k l) else none
  | .unlock m k => if s.locks m = .held t then some ((s.setLock m .free).goto t k l) else none
  | .access v f k => some ((s.store v (f (s.mem v) l).1).goto t k (f (s.mem v) l).2)
  | .act f k => (f i s.env l).map fun r ↦ { s with env := r.1 }.goto t k r.2
  | .spawn u k =>
    match s.threads u with
    | .unborn => some ((s.goto u (P.body u) (P.locals u)).goto t k l)
    | _ => none
  | .join u k =>
    match s.threads u with
    | .running .done _ => some ({ s with threads := update s.threads u .joined }.goto t k l)
    | _ => none
  | .branch c p q k => some (s.goto t (if c l then p.seq k else q.seq k) l)
  | .loop c p k => some (s.goto t (if c s.env l then p.seq (.loop c p k) else k) l)

def step (P : Program S) (s : State S) (e : Move S) : Option (State S) :=
  match s.threads e.thread with
  | .running k l => exec P s e.thread e.input l k
  | _ => none

def start (P : Program S) (env : S.Env) (mem : ∀ v, S.Val v) : State S where
  env := env
  mem := mem
  locks := fun _ ↦ .absent
  threads := update (fun _ ↦ .unborn) P.root (.running (P.body P.root) (P.locals P.root))

inductive Stepped (P : Program S) (s : State S) (t : S.Thread) (i : S.Input) (l : S.Local t) :
    Code S (S.Local t) → State S → Prop
  | create (m : S.Lock) (k : Code S (S.Local t)) (h : s.locks m = .absent) :
      Stepped P s t i l (.create m k) ((s.setLock m .free).goto t k l)
  | destroy (m : S.Lock) (k : Code S (S.Local t)) (h : s.locks m = .free) :
      Stepped P s t i l (.destroy m k) ((s.setLock m .absent).goto t k l)
  | lock (m : S.Lock) (k : Code S (S.Local t)) (h : s.locks m = .free) :
      Stepped P s t i l (.lock m k) ((s.setLock m (.held t)).goto t k l)
  | unlock (m : S.Lock) (k : Code S (S.Local t)) (h : s.locks m = .held t) :
      Stepped P s t i l (.unlock m k) ((s.setLock m .free).goto t k l)
  | access (v : S.Var) (f : S.Val v → S.Local t → S.Val v × S.Local t)
      (k : Code S (S.Local t)) : Stepped P s t i l (.access v f k)
        ((s.store v (f (s.mem v) l).1).goto t k (f (s.mem v) l).2)
  | act (f : S.Input → S.Env → S.Local t → Option (S.Env × S.Local t))
      (k : Code S (S.Local t)) (e : S.Env) (l' : S.Local t) (h : f i s.env l = some (e, l')) :
      Stepped P s t i l (.act f k) ({ s with env := e }.goto t k l')
  | spawn (u : S.Thread) (k : Code S (S.Local t)) (h : s.threads u = .unborn) :
      Stepped P s t i l (.spawn u k) ((s.goto u (P.body u) (P.locals u)).goto t k l)
  | join (u : S.Thread) (k : Code S (S.Local t)) (l' : S.Local u)
      (h : s.threads u = .running .done l') :
      Stepped P s t i l (.join u k) ({ s with threads := update s.threads u .joined }.goto t k l)
  | branch (c : S.Local t → Bool) (p q k : Code S (S.Local t)) :
      Stepped P s t i l (.branch c p q k) (s.goto t (if c l then p.seq k else q.seq k) l)
  | loop (c : S.Env → S.Local t → Bool) (p k : Code S (S.Local t)) :
      Stepped P s t i l (.loop c p k)
        (s.goto t (if c s.env l then p.seq (.loop c p k) else k) l)

variable {P : Program S} {s s' : State S} {t : S.Thread}

theorem exec_stepped {i : S.Input} {l : S.Local t} {k : Code S (S.Local t)}
    (h : exec P s t i l k = some s') : Stepped P s t i l k s' := by
  cases k with
  | done => exact nomatch h
  | create m k =>
    simp only [exec, Option.ite_none_right_eq_some, Option.some.injEq] at h
    exact h.2 ▸ .create m k h.1
  | destroy m k =>
    simp only [exec, Option.ite_none_right_eq_some, Option.some.injEq] at h
    exact h.2 ▸ .destroy m k h.1
  | lock m k =>
    simp only [exec, Option.ite_none_right_eq_some, Option.some.injEq] at h
    exact h.2 ▸ .lock m k h.1
  | unlock m k =>
    simp only [exec, Option.ite_none_right_eq_some, Option.some.injEq] at h
    exact h.2 ▸ .unlock m k h.1
  | access v f k => exact Option.some.inj h ▸ .access v f k
  | act f k =>
    obtain ⟨⟨e, l'⟩, hf, rfl⟩ := Option.map_eq_some_iff.mp h
    exact .act f k e l' hf
  | spawn u k =>
    cases hu : s.threads u with
    | unborn =>
      simp only [exec, hu, Option.some.injEq] at h
      exact h ▸ .spawn u k hu
    | _ => simp [exec, hu] at h
  | join u k =>
    cases hu : s.threads u with
    | running k' l' =>
      cases k' with
      | done =>
        simp only [exec, hu, Option.some.injEq] at h
        exact h ▸ .join u k l' hu
      | _ => simp [exec, hu] at h
    | _ => simp [exec, hu] at h
  | branch c p q k => exact Option.some.inj h ▸ .branch c p q k
  | loop c p k => exact Option.some.inj h ▸ .loop c p k

theorem step_stepped {e : Move S} (h : step P s e = some s') : ∃ k l,
    s.threads e.thread = .running k l ∧ Stepped P s e.thread e.input l k s' := by
  unfold step at h
  split at h
  · exact ⟨_, _, ‹_›, exec_stepped h⟩
  · exact nomatch h

theorem step_of_running {i : S.Input} {k : Code S (S.Local t)} {l : S.Local t}
    (h : s.threads t = .running k l) : step P s ⟨t, i⟩ = exec P s t i l k := by
  simp only [step, h]

inductive Behind : Code S ℓ → Code S ℓ → Prop
  | create (m : S.Lock) (k : Code S ℓ) : Behind (.create m k) k
  | destroy (m : S.Lock) (k : Code S ℓ) : Behind (.destroy m k) k
  | lock (m : S.Lock) (k : Code S ℓ) : Behind (.lock m k) k
  | unlock (m : S.Lock) (k : Code S ℓ) : Behind (.unlock m k) k
  | access (v : S.Var) (f : S.Val v → ℓ → S.Val v × ℓ) (k : Code S ℓ) : Behind (.access v f k) k
  | act (f : S.Input → S.Env → ℓ → Option (S.Env × ℓ)) (k : Code S ℓ) : Behind (.act f k) k
  | spawn (u : S.Thread) (k : Code S ℓ) : Behind (.spawn u k) k
  | join (u : S.Thread) (k : Code S ℓ) : Behind (.join u k) k
  | left (c : ℓ → Bool) (p q k : Code S ℓ) : Behind (.branch c p q k) (p.seq k)
  | right (c : ℓ → Bool) (p q k : Code S ℓ) : Behind (.branch c p q k) (q.seq k)
  | again (c : S.Env → ℓ → Bool) (p k : Code S ℓ) : Behind (.loop c p k) (p.seq (.loop c p k))
  | exit (c : S.Env → ℓ → Bool) (p k : Code S ℓ) : Behind (.loop c p k) k

/-- A step as the threads see it: one of them goes on, another one may be started or joined. -/
theorem Stepped.threads {i : S.Input} {l : S.Local t} {k : Code S (S.Local t)}
    (ht : s.threads t = .running k l) (h : Stepped P s t i l k s') :
    (∃ k' l', Behind k k' ∧ s'.threads t = .running k' l') ∧
    ∀ u, u ≠ t → s'.threads u = s.threads u ∨
      s.threads u = .unborn ∧ s'.threads u = .running (P.body u) (P.locals u) ∨
      (∃ l', s.threads u = .running .done l') ∧ s'.threads u = .joined := by
  have hsame (s₁ : State S) (hs : s₁.threads = s.threads) (k' : Code S (S.Local t))
      (l' : S.Local t) (hb : Behind k k') :
      (∃ k'' l'', Behind k k'' ∧ (s₁.goto t k' l').threads t = .running k'' l'') ∧
      ∀ u, u ≠ t → (s₁.goto t k' l').threads u = s.threads u ∨
        s.threads u = .unborn ∧ (s₁.goto t k' l').threads u = .running (P.body u) (P.locals u) ∨
        (∃ l', s.threads u = .running .done l') ∧ (s₁.goto t k' l').threads u = .joined := by
    refine ⟨⟨k', l', hb, State.goto_threads_self⟩, fun u hu ↦ .inl ?_⟩
    rw [State.goto_threads_ne hu, hs]
  cases h with
  | create m k hm => exact hsame (s.setLock m .free) rfl _ _ (.create m k)
  | destroy m k hm => exact hsame (s.setLock m .absent) rfl _ _ (.destroy m k)
  | lock m k hm => exact hsame (s.setLock m (.held t)) rfl _ _ (.lock m k)
  | unlock m k hm => exact hsame (s.setLock m .free) rfl _ _ (.unlock m k)
  | access v f k => exact hsame (s.store v (f (s.mem v) l).1) rfl _ _ (.access v f k)
  | act f k e l' hf => exact hsame { s with env := e } rfl _ _ (.act f k)
  | spawn v k hv =>
    refine ⟨⟨k, l, .spawn v k, State.goto_threads_self⟩, fun u hu ↦ ?_⟩
    rw [State.goto_threads_ne hu]
    by_cases huv : u = v
    · subst huv
      exact .inr (.inl ⟨hv, State.goto_threads_self⟩)
    · exact .inl (State.goto_threads_ne huv)
  | join v k l' hv =>
    refine ⟨⟨k, l, .join v k, State.goto_threads_self⟩, fun u hu ↦ ?_⟩
    rw [State.goto_threads_ne hu]
    by_cases huv : u = v
    · subst huv
      exact .inr (.inr ⟨⟨l', hv⟩, update_self ..⟩)
    · exact .inl (update_of_ne huv ..)
  | branch c p q k =>
    refine hsame s rfl _ _ ?_
    split_ifs
    · exact .left c p q k
    · exact .right c p q k
  | loop c p k =>
    refine hsame s rfl _ _ ?_
    split_ifs
    · exact .again c p k
    · exact .exit c p k

def Everywhere (C : ∀ t, Code S (S.Local t) → Prop) (s : State S) : Prop :=
  ∀ t k l, s.threads t = .running k l → C t k

theorem Everywhere.step {C : ∀ t, Code S (S.Local t) → Prop} (hbody : ∀ t, C t (P.body t))
    (hbehind : ∀ t k k', C t k → Behind k k' → C t k') (h : Everywhere C s) {e : Move S}
    (he : step P s e = some s') : Everywhere C s' := by
  obtain ⟨k, l, ht, hs⟩ := step_stepped he
  obtain ⟨⟨k', l', hb, ht'⟩, hothers⟩ := hs.threads ht
  intro u k₁ l₁ hu
  by_cases hut : u = e.thread
  · subst hut
    obtain ⟨rfl, _⟩ := ThreadState.running.inj (ht'.symm.trans hu)
    exact hbehind _ k k' (h _ k l ht) hb
  · rcases hothers u hut with hsame | ⟨_, hnew⟩ | ⟨_, hold⟩
    · exact h u k₁ l₁ (hsame.symm.trans hu)
    · obtain ⟨rfl, _⟩ := ThreadState.running.inj (hnew.symm.trans hu)
      exact hbody u
    · exact nomatch hold.symm.trans hu

theorem run_everywhere {C : ∀ t, Code S (S.Local t) → Prop} (hbody : ∀ t, C t (P.body t))
    (hbehind : ∀ t k k', C t k → Behind k k' → C t k') {env : S.Env} {mem : ∀ v, S.Val v}
    {h : List (Move S)} (hr : Run (step P) (start P env mem) h s) : Everywhere C s := by
  refine hr.invariant (I := Everywhere C) ?_ fun s e s' hs he ↦ hs.step hbody hbehind he
  intro t k l ht
  by_cases hroot : t = P.root
  · subst hroot
    simp only [start, update_self, ThreadState.running.injEq] at ht
    exact ht.1 ▸ hbody P.root
  · simp [start, update_of_ne hroot] at ht

end BmsFirmware.Lib.Threads
