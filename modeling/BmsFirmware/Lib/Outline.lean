import BmsFirmware.Lib.Atomicity

namespace BmsFirmware.Lib.Threads

open Function Lib.History

/-- An abstract machine for a program whose sections are single steps. `couples`
ties its states to the shared ones, and the view of a thread is the part of the
machine that the steps of this thread alone change, `post` what it is in the end. -/
structure Abstraction (S : Signature) where
  State : Type
  Event : Type
  step : State → Event → Option State
  View : S.Thread → Type
  view : ∀ t, State → View t
  post : ∀ t, View t → Prop
  couples : S.Env → (∀ v, S.Val v) → State → Prop

variable {S : Signature} {A : Abstraction S} {t u : S.Thread}

/-- From every state in `C` that looks like `x` to the thread `t`, a run of the
machine that the other threads do not see leads to a state in `C'` with a view in `R`. -/
def Simulates (A : Abstraction S) (t : S.Thread) (C C' : A.State → Prop) (x : A.View t)
    (R : A.View t → Prop) : Prop :=
  ∀ a, C a → A.view t a = x → ∃ h a', Run A.step a h a' ∧ C' a' ∧
    (∀ u, u ≠ t → A.view u a' = A.view u a) ∧ R (A.view t a')

section Simulates

variable {C C' : A.State → Prop} {x : A.View t} {R R' : A.View t → Prop}

theorem Simulates.mono (h : Simulates A t C C' x R) (hR : ∀ x, R x → R' x) :
    Simulates A t C C' x R' := by
  intro a hc hx
  obtain ⟨h', a', hr, hc', hu, hx'⟩ := h a hc hx
  exact ⟨h', a', hr, hc', hu, hR _ hx'⟩

/-- A step that the machine does not see. -/
theorem Simulates.stay (hc : ∀ a, C a → C' a) (hR : R x) : Simulates A t C C' x R :=
  fun a ha hx ↦ ⟨[], a, .start, hc a ha, fun _ _ ↦ rfl, hx ▸ hR⟩

/-- A step that the machine makes as well. -/
theorem Simulates.one (h : ∀ a, C a → A.view t a = x → ∃ d a', A.step a d = some a' ∧ C' a' ∧
    (∀ u, u ≠ t → A.view u a' = A.view u a) ∧ R (A.view t a')) : Simulates A t C C' x R := by
  intro a hc hx
  obtain ⟨d, a', hs, hrest⟩ := h a hc hx
  exact ⟨[d], a', Run.start.next hs, hrest⟩

end Simulates

variable [DecidableEq S.Var]

mutual

/-- The condition on the locals and the view in front of a code under which the
machine simulates it and `Q` holds behind it. -/
def wp (A : Abstraction S) (t : S.Thread) :
    Code S (S.Local t) → (S.Local t → A.View t → Prop) → S.Local t → A.View t → Prop
  | .done, Q, l, x => Q l x
  | .create _ k, Q, l, x => wp A t k Q l x
  | .destroy _ k, Q, l, x => wp A t k Q l x
  | .lock _ k, Q, l, x => ∀ e m, wpSection A t e m x k Q e m l
  | .unlock _ k, Q, l, x => wp A t k Q l x
  | .access v f k, Q, l, x => ∀ e m,
      Simulates A t (A.couples e m) (A.couples e (update m v (f (m v) l).1)) x fun x' ↦
        wp A t k Q (f (m v) l).2 x'
  | .act f k, Q, l, x => ∀ i e m r, f i e l = some r →
      Simulates A t (A.couples e m) (A.couples r.1 m) x fun x' ↦ wp A t k Q r.2 x'
  | .spawn _ k, Q, l, x => wp A t k Q l x
  | .join u k, Q, l, x => ∀ e m,
      Simulates A t (fun a ↦ A.couples e m a ∧ A.post u (A.view u a)) (A.couples e m) x fun x' ↦
        wp A t k Q l x'
  | .branch c p q k, Q, l, x =>
      if c l then wp A t p (fun l' x' ↦ wp A t k Q l' x') l x
      else wp A t q (fun l' x' ↦ wp A t k Q l' x') l x
  | .loop c p k, Q, l, x =>
      ∃ I : S.Local t → A.View t → Prop, I l x ∧ ∀ l' x', I l' x' → ∀ e m,
        Simulates A t (A.couples e m) (A.couples e m) x' fun x'' ↦
          if c e l' then wp A t p (fun l₁ x₁ ↦ I l₁ x₁) l' x'' else wp A t k Q l' x''

def wpSection (A : Abstraction S) (t : S.Thread) (e₀ : S.Env) (m₀ : ∀ v, S.Val v) (x : A.View t) :
    Code S (S.Local t) → (S.Local t → A.View t → Prop) →
      S.Env → (∀ v, S.Val v) → S.Local t → Prop
  | .access v f k, Q, e, m, l =>
      wpSection A t e₀ m₀ x k Q e (update m v (f (m v) l).1) (f (m v) l).2
  | .act f k, Q, e, m, l => ∀ i r, f i e l = some r → wpSection A t e₀ m₀ x k Q r.1 m r.2
  | .unlock _ k, Q, e, m, l =>
      Simulates A t (A.couples e₀ m₀) (A.couples e m) x fun x' ↦ wp A t k Q l x'
  | _, _, _, _, _ => False

end

variable {Q Q' : S.Local t → A.View t → Prop} {l : S.Local t} {x : A.View t}

theorem wp_mono_aux (k : Code S (S.Local t)) (hQ : ∀ l x, Q l x → Q' l x) :
    (∀ l x, wp A t k Q l x → wp A t k Q' l x) ∧
    ∀ e₀ m₀ x e m l, wpSection A t e₀ m₀ x k Q e m l → wpSection A t e₀ m₀ x k Q' e m l := by
  induction k generalizing Q Q' with
  | done => exact ⟨hQ, fun _ _ _ _ _ _ h ↦ h⟩
  | create m k ih => exact ⟨(ih hQ).1, fun _ _ _ _ _ _ h ↦ h⟩
  | destroy m k ih => exact ⟨(ih hQ).1, fun _ _ _ _ _ _ h ↦ h⟩
  | lock m k ih =>
    exact ⟨fun l x h e m' ↦ (ih hQ).2 e m' x e m' l (h e m'), fun _ _ _ _ _ _ h ↦ h⟩
  | unlock m k ih =>
    exact ⟨(ih hQ).1, fun _ _ _ _ _ _ h ↦ Simulates.mono h ((ih hQ).1 _)⟩
  | access v f k ih =>
    exact ⟨fun l x h e m ↦ (h e m).mono ((ih hQ).1 _), fun _ _ _ _ _ _ h ↦ (ih hQ).2 _ _ _ _ _ _ h⟩
  | act f k ih =>
    exact ⟨fun l x h i e m r hr ↦ (h i e m r hr).mono ((ih hQ).1 _),
      fun _ _ _ _ _ _ h i r hr ↦ (ih hQ).2 _ _ _ _ _ _ (h i r hr)⟩
  | spawn u k ih => exact ⟨(ih hQ).1, fun _ _ _ _ _ _ h ↦ h⟩
  | join u k ih =>
    exact ⟨fun l x h e m ↦ (h e m).mono ((ih hQ).1 _), fun _ _ _ _ _ _ h ↦ h⟩
  | branch c p q k ihp ihq ih =>
    refine ⟨fun l x h ↦ ?_, fun _ _ _ _ _ _ h ↦ h⟩
    unfold wp at h ⊢
    split_ifs at h ⊢
    · exact (ihp (ih hQ).1).1 l x h
    · exact (ihq (ih hQ).1).1 l x h
  | loop c p k _ ih =>
    refine ⟨fun l x h ↦ ?_, fun _ _ _ _ _ _ h ↦ h⟩
    obtain ⟨I, hI, hinv⟩ := h
    refine ⟨I, hI, fun l' x' hx e m ↦ (hinv l' x' hx e m).mono fun x'' h ↦ ?_⟩
    split_ifs at h ⊢
    · exact h
    · exact (ih hQ).1 l' x'' h

theorem wp_mono {k : Code S (S.Local t)} (hQ : ∀ l x, Q l x → Q' l x) (h : wp A t k Q l x) :
    wp A t k Q' l x :=
  (wp_mono_aux k hQ).1 l x h

theorem wp_seq_aux (p q : Code S (S.Local t)) (Q : S.Local t → A.View t → Prop) :
    (∀ l x, wp A t p (wp A t q Q) l x → wp A t (p.seq q) Q l x) ∧
    ∀ e₀ m₀ x e m l, wpSection A t e₀ m₀ x p (wp A t q Q) e m l →
      wpSection A t e₀ m₀ x (p.seq q) Q e m l := by
  induction p with
  | done => exact ⟨fun _ _ h ↦ h, fun _ _ _ _ _ _ h ↦ h.elim⟩
  | create m k ih => exact ⟨ih.1, fun _ _ _ _ _ _ h ↦ h.elim⟩
  | destroy m k ih => exact ⟨ih.1, fun _ _ _ _ _ _ h ↦ h.elim⟩
  | lock m k ih =>
    exact ⟨fun l x h e m' ↦ ih.2 e m' x e m' l (h e m'), fun _ _ _ _ _ _ h ↦ h.elim⟩
  | unlock m k ih => exact ⟨ih.1, fun _ _ _ _ _ _ h ↦ Simulates.mono h (ih.1 _)⟩
  | access v f k ih =>
    exact ⟨fun l x h e m ↦ (h e m).mono (ih.1 _), fun _ _ _ _ _ _ h ↦ ih.2 _ _ _ _ _ _ h⟩
  | act f k ih =>
    exact ⟨fun l x h i e m r hr ↦ (h i e m r hr).mono (ih.1 _),
      fun _ _ _ _ _ _ h i r hr ↦ ih.2 _ _ _ _ _ _ (h i r hr)⟩
  | spawn u k ih => exact ⟨ih.1, fun _ _ _ _ _ _ h ↦ h.elim⟩
  | join u k ih => exact ⟨fun l x h e m ↦ (h e m).mono (ih.1 _), fun _ _ _ _ _ _ h ↦ h.elim⟩
  | branch c a b k _ _ ih =>
    refine ⟨fun l x h ↦ ?_, fun _ _ _ _ _ _ h ↦ h.elim⟩
    unfold Code.seq wp
    unfold wp at h
    split_ifs at h ⊢
    · exact wp_mono ih.1 h
    · exact wp_mono ih.1 h
  | loop c a k _ ih =>
    refine ⟨fun l x h ↦ ?_, fun _ _ _ _ _ _ h ↦ h.elim⟩
    obtain ⟨I, hI, hinv⟩ := h
    refine ⟨I, hI, fun l' x' hx e m ↦ (hinv l' x' hx e m).mono fun x'' h ↦ ?_⟩
    split_ifs at h ⊢
    · exact h
    · exact ih.1 l' x'' h

/-- The rule for two codes one behind the other. -/
theorem wp_seq {p q : Code S (S.Local t)} (h : wp A t p (wp A t q Q) l x) :
    wp A t (p.seq q) Q l x :=
  (wp_seq_aux p q Q).1 l x h

theorem wp_branch {c : S.Local t → Bool} {p q k : Code S (S.Local t)}
    (hp : c l = true → wp A t p (fun l x ↦ wp A t k Q l x) l x)
    (hq : c l = false → wp A t q (fun l x ↦ wp A t k Q l x) l x) :
    wp A t (.branch c p q k) Q l x := by
  unfold wp
  split_ifs with hc
  · exact hp hc
  · exact hq (Bool.not_eq_true _ |>.mp hc)

/-- The rule for a loop with its invariant. -/
theorem wp_loop {c : S.Env → S.Local t → Bool} {p k : Code S (S.Local t)}
    (I : S.Local t → A.View t → Prop) (hI : I l x) (hp : ∀ l x, I l x → wp A t p I l x)
    (hk : ∀ l x e m, I l x → c e l = false →
      Simulates A t (A.couples e m) (A.couples e m) x fun x' ↦ wp A t k Q l x') :
    wp A t (.loop c p k) Q l x := by
  refine ⟨I, hI, fun l x h e m ↦ ?_⟩
  cases hc : c e l with
  | true => exact .stay (fun _ ↦ id) (hp l x h)
  | false => exact hk l x e m h hc

theorem wp_again {c : S.Env → S.Local t → Bool} {p k : Code S (S.Local t)}
    (h : wp A t (.loop c p k) Q l x) (e : S.Env) (m : ∀ v, S.Val v) :
    Simulates A t (A.couples e m) (A.couples e m) x fun x' ↦
      if c e l then wp A t (p.seq (.loop c p k)) Q l x' else wp A t k Q l x' := by
  obtain ⟨I, hI, hinv⟩ := h
  refine (hinv l x hI e m).mono fun x' h ↦ ?_
  split_ifs at h ⊢
  · exact wp_seq (wp_mono (fun l x hx ↦ ⟨I, hx, hinv⟩) h)
  · exact h

theorem wpSection_finish {e₀ e : S.Env} {m₀ m : ∀ v, S.Val v} {k : Code S (S.Local t)}
    {r : Outcome S (S.Local t)} (h : wpSection A t e₀ m₀ x k Q e m l)
    (hr : finishSection e m l k = some r) :
    Simulates A t (A.couples e₀ m₀) (A.couples r.env r.mem) x (wp A t r.code Q r.locals) := by
  induction k generalizing m l with
  | access v f k ih => exact ih h hr
  | unlock _ k _ =>
    obtain rfl := Option.some.inj hr
    exact h
  | _ => exact nomatch hr

theorem wpSection_run {i : S.Input} {e₀ e : S.Env} {m₀ m : ∀ v, S.Val v}
    {k : Code S (S.Local t)} {r : Outcome S (S.Local t)} (h : wpSection A t e₀ m₀ x k Q e m l)
    (hr : runSection i e m l k = some r) :
    Simulates A t (A.couples e₀ m₀) (A.couples r.env r.mem) x (wp A t r.code Q r.locals) := by
  induction k generalizing m l with
  | access v f k ih => exact ih h hr
  | act f k _ =>
    obtain ⟨y, hy, hr⟩ := Option.bind_eq_some_iff.mp hr
    exact wpSection_finish (h i y hy) hr
  | unlock _ k _ =>
    obtain rfl := Option.some.inj hr
    exact h
  | _ => exact nomatch hr

variable [DecidableEq S.Thread] {P : Program S} {s s' : State S}

structure Follows (P : Program S) (A : Abstraction S) (s : State S) (a : A.State) : Prop where
  couples : A.couples s.env s.mem a
  running : ∀ t k l, s.threads t = .running k l → wp A t k (fun _ ↦ A.post t) l (A.view t a)
  unborn : ∀ t, s.threads t = .unborn →
    wp A t (P.body t) (fun _ ↦ A.post t) (P.locals t) (A.view t a)

/-- The thread `t` goes on with `k'`, and the others see at most that one of them
starts or is joined. -/
theorem Follows.goes_on {a : A.State} (h : Follows P A s a) {C : A.State → Prop} (hC : C a)
    {k' : Code S (S.Local t)} {l' : S.Local t} (ht : s'.threads t = .running k' l')
    (hothers : ∀ u, u ≠ t → s'.threads u = s.threads u ∨
      s.threads u = .unborn ∧ s'.threads u = .running (P.body u) (P.locals u) ∨
      s'.threads u = .joined)
    (hs : Simulates A t C (A.couples s'.env s'.mem) (A.view t a)
      (wp A t k' (fun _ ↦ A.post t) l')) :
    ∃ k a', Run A.step a k a' ∧ Follows P A s' a' := by
  obtain ⟨k, a', hr, hc, hu, hx⟩ := hs a hC rfl
  refine ⟨k, a', hr, hc, ?_, ?_⟩
  · intro u k₁ l₁ hk
    by_cases hut : u = t
    · subst hut
      obtain ⟨rfl, rfl⟩ := ThreadState.running.inj (ht.symm.trans hk)
      exact hx
    · rw [hu u hut]
      rcases hothers u hut with hsame | ⟨hold, hnew⟩ | hnew
      · exact h.running u k₁ l₁ (hsame.symm.trans hk)
      · obtain ⟨rfl, rfl⟩ := ThreadState.running.inj (hnew.symm.trans hk)
        exact h.unborn u hold
      · exact nomatch hnew.symm.trans hk
  · intro u hk
    have hut : u ≠ t := by
      rintro rfl
      exact nomatch ht.symm.trans hk
    rw [hu u hut]
    rcases hothers u hut with hsame | ⟨_, hnew⟩ | hnew
    · exact h.unborn u (hsame.symm.trans hk)
    · exact nomatch hnew.symm.trans hk
    · exact nomatch hnew.symm.trans hk

variable [DecidableEq S.Lock]

theorem leap_cases {e : Move S} (he : leap P s e = some s') : ∃ k l,
    s.threads e.thread = .running k l ∧
    ((∃ m k' r, k = .lock m k' ∧ runSection e.input s.env s.mem l k' = some r ∧
        s' = State.goto { s with env := r.env, mem := r.mem } e.thread r.code r.locals) ∨
      (∀ m k', k ≠ .lock m k') ∧ exec P s e.thread e.input l k = some s') := by
  unfold leap at he
  split at he
  · rename_i m k l ht
    simp only [Option.ite_none_right_eq_some, Option.map_eq_some_iff] at he
    obtain ⟨_, r, hr, rfl⟩ := he
    exact ⟨_, l, ht, .inl ⟨m, k, r, rfl, hr, rfl⟩⟩
  · rename_i k l hk ht
    exact ⟨k, l, ht, .inr ⟨hk, he⟩⟩
  · exact nomatch he

theorem Follows.step {a : A.State} (h : Follows P A s a) {e : Move S}
    (he : leap P s e = some s') : ∃ k a', Run A.step a k a' ∧ Follows P A s' a' := by
  obtain ⟨k, l, ht, ⟨m, k', r, rfl, hr, rfl⟩ | ⟨hk, he⟩⟩ := leap_cases he
  · refine h.goes_on h.couples State.goto_threads_self
      (fun u hu ↦ .inl (State.goto_threads_ne hu)) ?_
    exact wpSection_run (h.running _ _ l ht s.env s.mem) hr
  · have hw := h.running _ k l ht
    have hs := exec_stepped he
    obtain ⟨_, hothers⟩ := hs.threads ht
    have hothers' (u : S.Thread) (hu : u ≠ e.thread) : s'.threads u = s.threads u ∨
        s.threads u = .unborn ∧ s'.threads u = .running (P.body u) (P.locals u) ∨
        s'.threads u = .joined :=
      (hothers u hu).imp_right (Or.imp_right (·.2))
    cases hs with
    | lock m k hm => exact absurd rfl (hk m k)
    | access v f k => exact h.goes_on h.couples State.goto_threads_self hothers' (hw s.env s.mem)
    | act f k e' l' hf =>
      exact h.goes_on h.couples State.goto_threads_self hothers' (hw _ s.env s.mem (e', l') hf)
    | join u k l' hu =>
      exact h.goes_on ⟨h.couples, h.running u .done l' hu⟩ State.goto_threads_self hothers'
        (hw s.env s.mem)
    | branch c p q k =>
      refine h.goes_on h.couples State.goto_threads_self hothers' (.stay (fun _ ↦ id) ?_)
      unfold wp at hw
      split_ifs at hw ⊢
      · exact wp_seq hw
      · exact wp_seq hw
    | loop c p k =>
      refine h.goes_on h.couples State.goto_threads_self hothers' ?_
      refine (wp_again hw s.env s.mem).mono fun x hx ↦ ?_
      split_ifs at hx ⊢
      · exact hx
      · exact hx
    | _ => exact h.goes_on h.couples State.goto_threads_self hothers' (.stay (fun _ ↦ id) hw)

structure Booting (P : Program S) (s : State S) : Prop where
  alone : ∀ u, u ≠ P.root → s.threads u = .unborn
  root : ∃ k l, s.threads P.root = .running k l ∧ k ≠ .done

structure Boots (P : Program S) (s₀ s : State S) : Prop where
  forced : Forced (leap P) (Booting P) s₀ s
  alone : ∀ u, u ≠ P.root → s.threads u = .unborn

namespace Boots

variable {s₀ : State S} {k k' : Code S (S.Local P.root)} {l l' : S.Local P.root}

theorem start (P : Program S) (env : S.Env) (mem : ∀ v, S.Val v) :
    Boots P (Threads.start P env mem) (Threads.start P env mem) := by
  refine ⟨.refl _, fun u hu ↦ ?_⟩
  simp [Threads.start, update_of_ne hu]

variable [Nonempty S.Input]

/-- A statement that does the same whatever the input. -/
theorem next (h : Boots P s₀ s) (ht : s.threads P.root = .running k l)
    (hk : ∀ m k', k ≠ .lock m k') (hth : s'.threads = s.threads)
    (he : ∀ i, exec P s P.root i l k = some (s'.goto P.root k' l')) :
    Boots P s₀ (s'.goto P.root k' l') := by
  have hbooting : Booting P s := by
    refine ⟨h.alone, k, l, ht, ?_⟩
    rintro rfl
    obtain ⟨i⟩ := (inferInstance : Nonempty S.Input)
    exact nomatch he i
  refine ⟨h.forced.trans (.cons hbooting (fun e s₁ he' ↦ ?_) (.refl _)), fun u hu ↦ ?_⟩
  · obtain ⟨k₁, l₁, hrun, hs⟩ := leap_cases he'
    obtain ⟨u, i⟩ := e
    have hu : u = P.root := by
      by_contra hn
      exact nomatch (h.alone u hn).symm.trans hrun
    subst hu
    obtain ⟨rfl, rfl⟩ := ThreadState.running.inj (ht.symm.trans hrun)
    obtain ⟨m, k', _, hlock, _⟩ | ⟨_, he'⟩ := hs
    · exact absurd hlock (hk m k')
    · exact Option.some.inj (he'.symm.trans (he i))
  · rw [State.goto_threads_ne hu, hth]
    exact h.alone u hu

theorem access (h : Boots P s₀ s) {v : S.Var}
    {f : S.Val v → S.Local P.root → S.Val v × S.Local P.root}
    (ht : s.threads P.root = .running (.access v f k) l) :
    Boots P s₀ ((s.store v (f (s.mem v) l).1).goto P.root k (f (s.mem v) l).2) :=
  h.next ht nofun rfl fun _ ↦ rfl

theorem create (h : Boots P s₀ s) {m : S.Lock} (ht : s.threads P.root = .running (.create m k) l)
    (hm : s.locks m = .absent) : Boots P s₀ ((s.setLock m .free).goto P.root k l) :=
  h.next ht nofun rfl fun _ ↦ if_pos hm

end Boots

/-- A run of the program with single-step sections is a run of the machine. -/
theorem run_follows {a : A.State} (h₀ : Follows P A s a) {h : List (Move S)}
    (hr : Run (leap P) s h s') : ∃ k a', Run A.step a k a' ∧ Follows P A s' a' := by
  induction hr with
  | start => exact ⟨[], a, .start, h₀⟩
  | next _ he ih =>
    obtain ⟨k, a₁, hk, hf⟩ := ih
    obtain ⟨k', a', hk', hf'⟩ := hf.step he
    exact ⟨k' ++ k, a', run_append_iff.mpr ⟨a₁, hk, hk'⟩, hf'⟩

end BmsFirmware.Lib.Threads
