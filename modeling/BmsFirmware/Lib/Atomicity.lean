import BmsFirmware.Lib.ThreadSafety

namespace BmsFirmware.Lib.Threads

open Function Lib.History

def LockState.atRest {τ : Type} : LockState τ → LockState τ
  | .absent => .absent
  | .free | .held _ => .free

theorem setLock_atRest {S : Signature} [DecidableEq S.Lock] {s c : State S}
    (h : ∀ m, c.locks m = (s.locks m).atRest) (m : S.Lock) (x : LockState S.Thread) (m' : S.Lock) :
    (c.setLock m x.atRest).locks m' = ((s.setLock m x).locks m').atRest := by
  by_cases he : m' = m
  · subst he
    simp [State.setLock]
  · simpa [State.setLock, he] using h m'

structure Outcome (S : Signature) (ℓ : Type) where
  env : S.Env
  mem : ∀ v, S.Val v
  code : Code S ℓ
  locals : ℓ

variable {S : Signature} {ℓ : Type}

structure Outcome.Same (A : S.Var → Prop) (r r' : Outcome S ℓ) : Prop where
  env : r.env = r'.env
  code : r.code = r'.code
  locals : r.locals = r'.locals
  mem : ∀ v, A v → r.mem v = r'.mem v

/-- Whenever the first section comes to its end, the second does as well and in the same way. -/
def Leads (A : S.Var → Prop) (o o' : Option (Outcome S ℓ)) : Prop :=
  ∀ r, o = some r → ∃ r', o' = some r' ∧ r.Same A r'

theorem Leads.trans {A : S.Var → Prop} {o₁ o₂ o₃ : Option (Outcome S ℓ)} (h : Leads A o₁ o₂)
    (h' : Leads A o₂ o₃) : Leads A o₁ o₃ := by
  intro r₁ h₁
  obtain ⟨r₂, h₂, hs⟩ := h r₁ h₁
  obtain ⟨r₃, h₃, hs'⟩ := h' r₂ h₂
  exact ⟨r₃, h₃, hs.env.trans hs'.env, hs.code.trans hs'.code, hs.locals.trans hs'.locals,
    fun v hv ↦ (hs.mem v hv).trans (hs'.mem v hv)⟩

theorem leads_of_agree {A : S.Var → Prop} {m₁ m₂ : ∀ v, S.Val v} (e : S.Env) {k : Code S ℓ}
    {l : ℓ} (h : ∀ v, A v → m₁ v = m₂ v) :
    Leads A (some ⟨e, m₁, k, l⟩) (some ⟨e, m₂, k, l⟩) := by
  intro r hr
  obtain rfl := Option.some.inj hr
  exact ⟨_, rfl, rfl, rfl, rfl, h⟩

variable [DecidableEq S.Var]

def finishSection (e : S.Env) : (∀ v, S.Val v) → ℓ → Code S ℓ → Option (Outcome S ℓ)
  | mem, l, .access v f k => finishSection e (update mem v (f (mem v) l).1) (f (mem v) l).2 k
  | mem, l, .unlock _ k => some ⟨e, mem, k, l⟩
  | _, _, _ => none

def runSection (i : S.Input) (e : S.Env) :
    (∀ v, S.Val v) → ℓ → Code S ℓ → Option (Outcome S ℓ)
  | mem, l, .access v f k => runSection i e (update mem v (f (mem v) l).1) (f (mem v) l).2 k
  | mem, l, .act f k => (f i e l).bind fun r ↦ finishSection r.1 mem r.2 k
  | mem, l, .unlock _ k => some ⟨e, mem, k, l⟩
  | _, _, _ => none

theorem update_agree {A : S.Var → Prop} {m₁ m₂ : ∀ v, S.Val v} (h : ∀ v, A v → m₁ v = m₂ v)
    (v : S.Var) (x : S.Val v) (w : S.Var) (hw : A w) : update m₁ v x w = update m₂ v x w := by
  by_cases hwv : w = v
  · subst hwv
    rw [update_self, update_self]
  · rw [update_of_ne hwv, update_of_ne hwv, h w hw]

theorem finishSection_env (e e' : S.Env) (mem : ∀ v, S.Val v) (l : ℓ) (k : Code S ℓ) :
    finishSection e mem l k = (finishSection e' mem l k).map fun r ↦ { r with env := e } := by
  induction k generalizing mem l with
  | access v f k ih => exact ih _ _
  | _ => rfl

variable [DecidableEq S.Thread] [DecidableEq S.Lock]
variable {P : Program S} {D : Discipline S} {s s' c c' : State S} {t u : S.Thread}
variable {fin : Phase S → Bool} {p : Phase S} {k : Code S ℓ}

/-- A section depends on the variables only that it is allowed to use. -/
theorem finishSection_congr (e : S.Env) (hc : check P D t fin p k = true)
    {m₁ m₂ : ∀ v, S.Val v} {l : ℓ} (h : ∀ v, allows P D t p v = true → m₁ v = m₂ v) :
    Leads (allows P D t p · = true) (finishSection e m₁ l k) (finishSection e m₂ l k) := by
  induction k generalizing m₁ m₂ l with
  | access v f k ih =>
    simp only [check, Bool.and_eq_true] at hc
    have hv : allows P D t p v = true := hc.1
    simp only [finishSection, h v hv]
    exact ih hc.2 (update_agree h v _)
  | unlock m k _ =>
    intro r hr
    obtain rfl := Option.some.inj hr
    exact ⟨_, rfl, rfl, rfl, rfl, h⟩
  | _ => exact fun r hr ↦ by cases hr

theorem runSection_congr (i : S.Input) (e : S.Env) {m : S.Lock} (hp : p.held = some (m, false))
    (hc : check P D t fin p k = true) {m₁ m₂ : ∀ v, S.Val v} {l : ℓ}
    (h : ∀ v, allows P D t p v = true → m₁ v = m₂ v) :
    Leads (allows P D t p · = true) (runSection i e m₁ l k) (runSection i e m₂ l k) := by
  induction k generalizing m₁ m₂ l with
  | access v f k ih =>
    simp only [check, Bool.and_eq_true] at hc
    have hv : allows P D t p v = true := hc.1
    simp only [runSection, h v hv]
    exact ih hc.2 (update_agree h v _)
  | act f k _ =>
    simp only [check, Bool.and_eq_true] at hc
    intro r hr
    obtain ⟨x, hx, hr⟩ := Option.bind_eq_some_iff.mp hr
    have hall : allows P D t (p.setHeld (some (m, true))) = allows P D t p := allows_acted hp
    have hc' : check P D t fin (p.setHeld (some (m, true))) k = true := by
      simpa [Phase.next, hp] using hc.2
    have hcongr : Leads (allows P D t p · = true) (finishSection x.1 m₁ x.2 k)
        (finishSection x.1 m₂ x.2 k) :=
      hall ▸ finishSection_congr x.1 hc' (by rwa [hall])
    obtain ⟨r', hr', hs⟩ := hcongr r hr
    exact ⟨r', Option.bind_eq_some_iff.mpr ⟨x, hx, hr'⟩, hs⟩
  | unlock m k _ =>
    intro r hr
    obtain rfl := Option.some.inj hr
    exact ⟨_, rfl, rfl, rfl, rfl, h⟩
  | _ => exact fun r hr ↦ by cases hr

/-- A section leaves the other variables as they were. -/
theorem finishSection_frame {e : S.Env} (hc : check P D t fin p k = true) {mem : ∀ v, S.Val v}
    {l : ℓ} {r : Outcome S ℓ} (hr : finishSection e mem l k = some r) {v : S.Var}
    (hv : allows P D t p v = false) : r.mem v = mem v := by
  induction k generalizing mem l with
  | access w f k ih =>
    simp only [check, Bool.and_eq_true] at hc
    have hw : allows P D t p w = true := hc.1
    have hne : v ≠ w := by
      rintro rfl
      exact Bool.false_ne_true (hv.symm.trans hw)
    rw [ih hc.2 hr, update_of_ne hne]
  | unlock m k _ => rw [← Option.some.inj hr]
  | _ => cases hr

theorem runSection_frame {i : S.Input} {e : S.Env} {m : S.Lock} (hp : p.held = some (m, false))
    (hc : check P D t fin p k = true) {mem : ∀ v, S.Val v} {l : ℓ} {r : Outcome S ℓ}
    (hr : runSection i e mem l k = some r) {v : S.Var} (hv : allows P D t p v = false) :
    r.mem v = mem v := by
  induction k generalizing mem l with
  | access w f k ih =>
    simp only [check, Bool.and_eq_true] at hc
    have hw : allows P D t p w = true := hc.1
    have hne : v ≠ w := by
      rintro rfl
      exact Bool.false_ne_true (hv.symm.trans hw)
    rw [ih hc.2 hr, update_of_ne hne]
  | act f k _ =>
    simp only [check, Bool.and_eq_true] at hc
    obtain ⟨x, _, hr⟩ := Option.bind_eq_some_iff.mp hr
    have hc' : check P D t fin (p.setHeld (some (m, true))) k = true := by
      simpa [Phase.next, hp] using hc.2
    refine finishSection_frame hc' hr ?_
    rw [allows_acted hp, hv]
  | unlock m k _ => rw [← Option.some.inj hr]
  | _ => cases hr

/-- A section that has acted comes to its end without further ado. -/
theorem finishSection_ends (e : S.Env) {m : S.Lock} (hp : p.held = some (m, true))
    (hfin : ∀ q, fin q = true → q.held = none) (hc : check P D t fin p k = true)
    (mem : ∀ v, S.Val v) (l : ℓ) : ∃ r, finishSection e mem l k = some r ∧ r.env = e := by
  induction k generalizing mem l with
  | access v f k ih =>
    simp only [check, Bool.and_eq_true] at hc
    exact ih hc.2 _ _
  | unlock m k _ => exact ⟨_, rfl, rfl⟩
  | done => cases hp.symm.trans (hfin p hc)
  | act f k _ =>
    have ha := check_admits P D t hc
    simp [admits, hp] at ha
  | _ =>
    have ha := check_admits P D t hc
    simp [admits, hp] at ha

/-- The program with its sections as single steps, made when their lock is free. -/
def leap (P : Program S) (s : State S) (e : Move S) : Option (State S) :=
  match s.threads e.thread with
  | .running (.lock m k) l =>
    if s.locks m = .free then
      (runSection e.input s.env s.mem l k).map fun r ↦
        { s with env := r.env, mem := r.mem }.goto e.thread r.code r.locals
    else none
  | .running k l => exec P s e.thread e.input l k
  | _ => none

/-- A state of a program against a state of the program with single-step
sections. A thread inside a section is still in front of it there while it has
not acted, and already behind it afterwards. -/
structure Reduces (P : Program S) (D : Discipline S) (s c : State S) (ph : S.Thread → Phase S) :
    Prop where
  env : c.env = s.env
  locks : ∀ m, c.locks m = (s.locks m).atRest
  outside : ∀ t, (s.Running t → (ph t).held = none) → c.threads t = s.threads t
  before : ∀ t k l m, s.threads t = .running k l → (ph t).held = some (m, false) →
    ∃ k₀ l₀, c.threads t = .running (.lock m k₀) l₀ ∧
      check P D t (final P t) (ph t) k₀ = true ∧
      ∀ i e, Leads (allows P D t (ph t) · = true) (runSection i e s.mem l k)
        (runSection i e c.mem l₀ k₀)
  after : ∀ t k l m, s.threads t = .running k l → (ph t).held = some (m, true) →
    ∃ k₀ l₀, c.threads t = .running k₀ l₀ ∧
      ∀ e, Leads (allows P D t (ph t) · = true) (finishSection e s.mem l k)
        (some ⟨e, c.mem, k₀, l₀⟩)
  mem : ∀ v, (∀ t, s.Running t → (ph t).held ≠ none → allows P D t (ph t) v = false) →
    c.mem v = s.mem v

namespace Reduces

variable {ph : S.Thread → Phase S} {k : Code S (S.Local t)} {l : S.Local t}

theorem start (P : Program S) (D : Discipline S) (env : S.Env) (mem : ∀ v, S.Val v) :
    Reduces P D (start P env mem) (Threads.start P env mem)
      (update (fun _ ↦ .born D) P.root .root) := by
  have hheld (t : S.Thread) : (update (fun _ ↦ Phase.born D) P.root .root t).held = none := by
    by_cases ht : t = P.root
    · subst ht
      rw [update_self]
      rfl
    · rw [update_of_ne ht]
      rfl
  refine ⟨rfl, fun _ ↦ rfl, fun t _ ↦ rfl, ?_, ?_, fun v _ ↦ rfl⟩
  · intro t k l m _ hm
    cases (hheld t).symm.trans hm
  · intro t k l m _ hm
    cases (hheld t).symm.trans hm

/-- The variables of a thread that is in no section. -/
theorem own_mem (hr : Reduces P D s c ph) (hd : Disciplined P D s ph) (ht : s.Running t)
    (hp : (ph t).held = none) {v : S.Var} (hv : allows P D t (ph t) v = true) :
    c.mem v = s.mem v := by
  refine hr.mem v fun u hu hm ↦ hd.exclusive ht hu ?_ hv
  rintro rfl
  exact hm hp

/-- A step of `t` does not touch the section of another thread. -/
theorem others (hr : Reduces P D s c ph) (hd : Disciplined P D s ph) (ht : s.Running t)
    (hmem : ∀ v, allows P D t (ph t) v = false → s'.mem v = s.mem v)
    (hmem' : ∀ v, allows P D t (ph t) v = false → c'.mem v = c.mem v) (hu : u ≠ t)
    {k : Code S (S.Local u)} {l : S.Local u} {m : S.Lock}
    (hk : s.threads u = .running k l) (hc : c'.threads u = c.threads u) :
    ((ph u).held = some (m, false) → ∃ k₀ l₀, c'.threads u = .running (.lock m k₀) l₀ ∧
      check P D u (final P u) (ph u) k₀ = true ∧
      ∀ i e, Leads (allows P D u (ph u) · = true) (runSection i e s'.mem l k)
        (runSection i e c'.mem l₀ k₀)) ∧
    ((ph u).held = some (m, true) → ∃ k₀ l₀, c'.threads u = .running k₀ l₀ ∧
      ∀ e, Leads (allows P D u (ph u) · = true) (finishSection e s'.mem l k)
        (some ⟨e, c'.mem, k₀, l₀⟩)) := by
  have hchk := hd.checked u k l hk
  have hothers (v : S.Var) (hv : allows P D u (ph u) v = true) : allows P D t (ph t) v = false :=
    hd.exclusive ⟨k, l, hk⟩ ht hu hv
  have hs (v : S.Var) (hv : allows P D u (ph u) v = true) : s'.mem v = s.mem v :=
    hmem v (hothers v hv)
  have hs' (v : S.Var) (hv : allows P D u (ph u) v = true) : c.mem v = c'.mem v :=
    (hmem' v (hothers v hv)).symm
  constructor
  · intro hp
    obtain ⟨k₀, l₀, hk₀, hchk₀, hlead⟩ := hr.before u k l m hk hp
    refine ⟨k₀, l₀, hc.trans hk₀, hchk₀, fun i e ↦ ?_⟩
    exact (runSection_congr i e hp hchk hs).trans
      ((hlead i e).trans (runSection_congr i e hp hchk₀ hs'))
  · intro hp
    obtain ⟨k₀, l₀, hk₀, hlead⟩ := hr.after u k l m hk hp
    refine ⟨k₀, l₀, hc.trans hk₀, fun e ↦ ?_⟩
    exact (finishSection_congr e hchk hs).trans ((hlead e).trans (leads_of_agree e hs'))

/-- The relation after a step of `t`, put together from what the step did to `t`. -/
theorem rebuild (hr : Reduces P D s c ph) (hd : Disciplined P D s ph) (ht : s.Running t)
    (ht' : s'.Running t) {p : Phase S} (henv : c'.env = s'.env)
    (hlocks : ∀ m, c'.locks m = (s'.locks m).atRest)
    (hmem : ∀ v, allows P D t (ph t) v = false → s'.mem v = s.mem v)
    (hmem' : ∀ v, allows P D t (ph t) v = false → c'.mem v = c.mem v)
    (hothers : ∀ u, u ≠ t → s'.threads u = s.threads u ∧ c'.threads u = c.threads u ∨
      (ph u).held = none ∧ c'.threads u = s'.threads u)
    (houtside : p.held = none → c'.threads t = s'.threads t ∧
      ∀ v, allows P D t (ph t) v = true → c'.mem v = s'.mem v)
    (hinside : p.held ≠ none → ∀ v, allows P D t (ph t) v = true → allows P D t p v = true)
    (hbefore : ∀ k l m, s'.threads t = .running k l → p.held = some (m, false) →
      ∃ k₀ l₀, c'.threads t = .running (.lock m k₀) l₀ ∧ check P D t (final P t) p k₀ = true ∧
        ∀ i e, Leads (allows P D t p · = true) (runSection i e s'.mem l k)
          (runSection i e c'.mem l₀ k₀))
    (hafter : ∀ k l m, s'.threads t = .running k l → p.held = some (m, true) →
      ∃ k₀ l₀, c'.threads t = .running k₀ l₀ ∧
        ∀ e, Leads (allows P D t p · = true) (finishSection e s'.mem l k)
          (some ⟨e, c'.mem, k₀, l₀⟩)) :
    Reduces P D s' c' (update ph t p) := by
  have hsame {u : S.Thread} (hu : u ≠ t) (hm : (ph u).held ≠ none) :
      s'.threads u = s.threads u ∧ c'.threads u = c.threads u :=
    (hothers u hu).resolve_right fun h ↦ hm h.1
  refine ⟨henv, hlocks, ?_, ?_, ?_, ?_⟩
  · intro u hu
    by_cases hut : u = t
    · subst hut
      rw [update_self] at hu
      exact (houtside (hu ht')).1
    · rw [update_of_ne hut] at hu
      rcases hothers u hut with ⟨hs, hc⟩ | ⟨_, hc⟩
      · rw [hc, hs]
        refine hr.outside u fun hrun ↦ hu ?_
        simpa only [State.Running, hs] using hrun
      · exact hc
  · intro u k l m hk hp
    by_cases hut : u = t
    · subst hut
      rw [update_self] at hp ⊢
      exact hbefore k l m hk hp
    · rw [update_of_ne hut] at hp ⊢
      obtain ⟨hs, hc⟩ := hsame hut (by simp [hp])
      exact (hr.others hd ht hmem hmem' hut (hs ▸ hk) hc).1 hp
  · intro u k l m hk hp
    by_cases hut : u = t
    · subst hut
      rw [update_self] at hp ⊢
      exact hafter k l m hk hp
    · rw [update_of_ne hut] at hp ⊢
      obtain ⟨hs, hc⟩ := hsame hut (by simp [hp])
      exact (hr.others hd ht hmem hmem' hut (hs ▸ hk) hc).2 hp
  · intro v hv
    cases hav : allows P D t (ph t) v with
    | true =>
      by_cases hp : p.held = none
      · exact (houtside hp).2 v hav
      · have hno := hv t ht' (by rwa [update_self])
        rw [update_self, hinside hp v hav] at hno
        cases hno
    | false =>
      rw [hmem' v hav, hmem v hav]
      refine hr.mem v fun u hu hm ↦ ?_
      by_cases hut : u = t
      · exact hut ▸ hav
      · have hno := hv u (by simpa only [State.Running, (hsame hut hm).1] using hu)
          (by rwa [update_of_ne hut])
        rwa [update_of_ne hut] at hno

theorem rebuild_outside (hr : Reduces P D s c ph) (hd : Disciplined P D s ph) (ht : s.Running t)
    (ht' : s'.Running t) {p : Phase S} (hp : p.held = none) (henv : c'.env = s'.env)
    (hlocks : ∀ m, c'.locks m = (s'.locks m).atRest)
    (hmem : ∀ v, allows P D t (ph t) v = false → s'.mem v = s.mem v)
    (hmem' : ∀ v, allows P D t (ph t) v = false → c'.mem v = c.mem v)
    (hothers : ∀ u, u ≠ t → s'.threads u = s.threads u ∧ c'.threads u = c.threads u ∨
      (ph u).held = none ∧ c'.threads u = s'.threads u)
    (hself : c'.threads t = s'.threads t)
    (hown : ∀ v, allows P D t (ph t) v = true → c'.mem v = s'.mem v) :
    Reduces P D s' c' (update ph t p) :=
  hr.rebuild hd ht ht' henv hlocks hmem hmem' hothers (fun _ ↦ ⟨hself, hown⟩)
    (fun h ↦ absurd hp h) (fun _ _ _ _ h ↦ nomatch hp.symm.trans h)
    fun _ _ _ _ h ↦ nomatch hp.symm.trans h

/-- A step outside of all sections is the same step on both sides. -/
theorem step_outside (hr : Reduces P D s c ph) (hd : Disciplined P D s ph)
    (ht : s.threads t = .running k l) {i : S.Input} (hs : Stepped P s t i l k s')
    (hp : (ph t).held = none) (hk : ∀ m k', k ≠ .lock m k') :
    ∃ c', leap P c ⟨t, i⟩ = some c' ∧ Reduces P D s' c' (update ph t ((ph t).next k)) := by
  have hrun : s.Running t := ⟨k, l, ht⟩
  have hct : c.threads t = .running k l := (hr.outside t fun _ ↦ hp).trans ht
  have hleap : leap P c ⟨t, i⟩ = exec P c t i l k := by
    simp only [leap, hct]
  have hgoto {s₁ c₁ : State S} (hs₁ : s₁.threads = s.threads) (hc₁ : c₁.threads = c.threads)
      (k' : Code S (S.Local t)) (l' : S.Local t) (u : S.Thread) (hu : u ≠ t) :
      (s₁.goto t k' l').threads u = s.threads u ∧ (c₁.goto t k' l').threads u = c.threads u := by
    rw [State.goto_threads_ne hu, State.goto_threads_ne hu, hs₁, hc₁]
    exact ⟨rfl, rfl⟩
  have hown (v : S.Var) (hv : allows P D t (ph t) v = true) : c.mem v = s.mem v :=
    hr.own_mem hd hrun hp hv
  have hself {s₁ c₁ : State S} (k' : Code S (S.Local t)) (l' : S.Local t) :
      (c₁.goto t k' l').threads t = (s₁.goto t k' l').threads t := by
    rw [State.goto_threads_self, State.goto_threads_self]
  rw [hleap]
  cases hs with
  | create m k hm =>
    have hcm : c.locks m = .absent := by rw [hr.locks, hm, LockState.atRest]
    refine ⟨_, if_pos hcm, ?_⟩
    exact hr.rebuild_outside hd hrun ⟨_, _, State.goto_threads_self⟩ hp hr.env
      (setLock_atRest hr.locks m .free) (fun _ _ ↦ rfl) (fun _ _ ↦ rfl)
      (fun u hu ↦ .inl (hgoto rfl rfl k l u hu)) (hself k l) hown
  | destroy m k hm =>
    have hcm : c.locks m = .free := by rw [hr.locks, hm, LockState.atRest]
    refine ⟨_, if_pos hcm, ?_⟩
    exact hr.rebuild_outside hd hrun ⟨_, _, State.goto_threads_self⟩ hp hr.env
      (setLock_atRest hr.locks m .absent) (fun _ _ ↦ rfl) (fun _ _ ↦ rfl)
      (fun u hu ↦ .inl (hgoto rfl rfl k l u hu)) (hself k l) hown
  | lock m k hm => exact absurd rfl (hk m k)
  | unlock m k hm =>
    have hl := (hd.held_iff m t).mp hm
    rw [Phase.lock?, hp] at hl
    cases hl.2
  | access v f k =>
    have hv : allows P D t (ph t) v = true := check_admits P D t (hd.checked t _ l ht)
    have hne (w : S.Var) (hw : allows P D t (ph t) w = false) : w ≠ v := by
      rintro rfl
      exact Bool.false_ne_true (hw.symm.trans hv)
    refine ⟨_, rfl, ?_⟩
    rw [hown v hv]
    refine hr.rebuild_outside hd hrun ⟨_, _, State.goto_threads_self⟩ hp hr.env hr.locks
      (fun w hw ↦ ?_) (fun w hw ↦ ?_) (fun u hu ↦ .inl (hgoto rfl rfl _ _ u hu)) (hself _ _)
      fun w hw ↦ ?_
    · simp [State.store, hne w hw]
    · simp [State.store, hne w hw]
    · exact update_agree (A := (allows P D t (ph t) · = true)) hown v _ w hw
  | act f k e l' hf =>
    refine ⟨_, by rw [exec, hr.env, hf]; rfl, ?_⟩
    refine hr.rebuild_outside hd hrun ⟨_, _, State.goto_threads_self⟩ (by simp [Phase.next, hp]) rfl
      hr.locks (fun _ _ ↦ rfl) (fun _ _ ↦ rfl)
      (fun u hu ↦ .inl ?_) (hself k l') hown
    rw [State.goto_threads_ne hu, State.goto_threads_ne hu]
    exact ⟨rfl, rfl⟩
  | spawn u k hu =>
    have hcu : c.threads u = .unborn :=
      (hr.outside u fun hu' ↦ by rw [hd.born u hu]; rfl).trans hu
    refine ⟨(c.goto u (P.body u) (P.locals u)).goto t k l, by simp only [exec, hcu], ?_⟩
    refine hr.rebuild_outside hd hrun ⟨_, _, State.goto_threads_self⟩ hp hr.env hr.locks
      (fun _ _ ↦ rfl) (fun _ _ ↦ rfl) (fun v hv ↦ ?_) (hself k l) hown
    rw [State.goto_threads_ne hv, State.goto_threads_ne hv]
    by_cases hvu : v = u
    · subst hvu
      rw [State.goto_threads_self, State.goto_threads_self, hd.born v hu]
      exact .inr ⟨rfl, rfl⟩
    · rw [State.goto_threads_ne hvu, State.goto_threads_ne hvu]
      exact .inl ⟨rfl, rfl⟩
  | join u k l' hu =>
    have hheld : (ph u).held = none := hd.held_done hu
    have hcu : c.threads u = .running .done l' := (hr.outside u fun _ ↦ hheld).trans hu
    refine ⟨State.goto { c with threads := update c.threads u .joined } t k l,
      by simp only [exec, hcu], ?_⟩
    refine hr.rebuild_outside hd hrun ⟨_, _, State.goto_threads_self⟩ hp hr.env hr.locks
      (fun _ _ ↦ rfl) (fun _ _ ↦ rfl) (fun v hv ↦ ?_) (hself k l) hown
    rw [State.goto_threads_ne hv, State.goto_threads_ne hv]
    by_cases hvu : v = u
    · subst hvu
      exact .inr ⟨hheld, by simp⟩
    · exact .inl ⟨update_of_ne hvu .., update_of_ne hvu ..⟩
  | branch a p q k =>
    refine ⟨_, rfl, ?_⟩
    exact hr.rebuild_outside hd hrun ⟨_, _, State.goto_threads_self⟩ hp hr.env hr.locks
      (fun _ _ ↦ rfl) (fun _ _ ↦ rfl) (fun u hu ↦ .inl (hgoto rfl rfl _ l u hu)) (hself _ l) hown
  | loop a p k =>
    refine ⟨_, rfl, ?_⟩
    rw [hr.env]
    exact hr.rebuild_outside hd hrun ⟨_, _, State.goto_threads_self⟩ hp hr.env hr.locks
      (fun _ _ ↦ rfl) (fun _ _ ↦ rfl) (fun u hu ↦ .inl (hgoto rfl rfl _ l u hu)) (hself _ l) hown

theorem step_lock (hC : Checked P D) (hr : Reduces P D s c ph) (hd : Disciplined P D s ph)
    {m : S.Lock} {k : Code S (S.Local t)} (ht : s.threads t = .running (.lock m k) l)
    {i : S.Input} (hs : Stepped P s t i l (.lock m k) s') :
    Reduces P D s' c (update ph t ((ph t).setHeld (some (m, false)))) := by
  have hrun : s.Running t := ⟨_, l, ht⟩
  have hd' := hd.step hC ht hs
  have hp : (ph t).held = none := (of_decide_eq_true (check_admits P D t (hd.checked t _ l ht))).1
  have hct : c.threads t = .running (.lock m k) l := (hr.outside t fun _ ↦ hp).trans ht
  cases hs with
  | lock m k hm =>
    have hchk := hd'.checked t k l State.goto_threads_self
    rw [Phase.next, update_self] at hchk
    have hrun' : State.Running ((s.setLock m (.held t)).goto t k l) t :=
      ⟨_, _, State.goto_threads_self⟩
    have hown (v : S.Var) (hv : allows P D t ((ph t).setHeld (some (m, false))) v = true) :
        s.mem v = c.mem v := by
      refine (hr.mem v fun u hu hm ↦ ?_).symm
      have hut : u ≠ t := by
        rintro rfl
        exact hm hp
      have hrunu : State.Running ((s.setLock m (.held t)).goto t k l) u :=
        State.running_goto.mpr (.inr hu)
      have hexc := hd'.exclusive hrun' hrunu hut.symm (v := v)
      rw [Phase.next, update_self, update_of_ne hut] at hexc
      exact hexc hv
    refine hr.rebuild hd hrun hrun' hr.env ?_ (fun _ _ ↦ rfl) (fun _ _ ↦ rfl) (fun u hu ↦ .inl ?_)
      (fun h ↦ by cases h) (fun _ v hv ↦ ?_) (fun k' l' m' hk' hm' ↦ ?_) fun k' l' m' hk' hm' ↦ ?_
    · intro m'
      by_cases he : m' = m
      · subst he
        simp [State.setLock, hr.locks, hm, LockState.atRest]
      · simp [State.setLock, he, hr.locks]
    · rw [State.goto_threads_ne hu]
      exact ⟨rfl, rfl⟩
    · simp only [allows, Phase.lock?, hp] at hv
      simp only [allows, Bool.or_eq_true] at hv ⊢
      rcases hv with hv | hv
      · cases hg : D.guard v with
        | lock m' => simp [hg] at hv
        | thread w => exact .inl (by simpa [hg] using hv)
      · exact .inr hv
    · rw [State.goto_threads_self, ThreadState.running.injEq] at hk'
      obtain ⟨rfl, rfl⟩ := hk'
      obtain rfl : m = m' := (Prod.mk.inj (Option.some.inj hm')).1
      exact ⟨k, l, hct, hchk, fun i e ↦ runSection_congr i e rfl hchk hown⟩
    · cases (Prod.mk.inj (Option.some.inj hm')).2

/-- A section is made, as one step, by its act, or by its end if it has none. -/
theorem leap_section (hr : Reduces P D s c ph) (hd : Disciplined P D s ph)
    (ht : s.threads t = .running k l) {m : S.Lock} (hm : (ph t).held = some (m, false))
    {i : S.Input} {r : Outcome S (S.Local t)} (hsec : runSection i s.env s.mem l k = some r) :
    ∃ r', leap P c ⟨t, i⟩ = some (State.goto { c with env := r'.env, mem := r'.mem } t r'.code
        r'.locals) ∧ r.Same (allows P D t (ph t) · = true) r' ∧
      ∀ v, allows P D t (ph t) v = false → r'.mem v = c.mem v := by
  obtain ⟨k₀, l₀, hct, hchk, hlead⟩ := hr.before t k l m ht hm
  obtain ⟨r', hr', hsame⟩ := hlead i s.env r hsec
  have hheld : s.locks m = .held t := (hd.held_iff m t).mpr ⟨⟨k, l, ht⟩, by simp [Phase.lock?, hm]⟩
  have hfree : c.locks m = .free := by rw [hr.locks, hheld, LockState.atRest]
  refine ⟨r', ?_, hsame, fun v hv ↦ runSection_frame hm hchk hr' hv⟩
  simp only [leap, hct, if_pos hfree, hr.env, hr', Option.map_some]

theorem step_section (hr : Reduces P D s c ph) (hd : Disciplined P D s ph)
    (ht : s.threads t = .running k l) {i : S.Input} (hs : Stepped P s t i l k s') {m : S.Lock}
    {b : Bool} (hm : (ph t).held = some (m, b)) :
    ∃ c', (c' = c ∨ leap P c ⟨t, i⟩ = some c') ∧
      Reduces P D s' c' (update ph t ((ph t).next k)) := by
  have hrun : s.Running t := ⟨k, l, ht⟩
  have hchk := hd.checked t k l ht
  have ha := check_admits P D t hchk
  have hfin (q : Phase S) (hq : final P t q = true) : q.held = none := (of_decide_eq_true hq).1
  have hothers {s₁ : State S} (hs₁ : s₁.threads = s.threads) (k' : Code S (S.Local t))
      (l' : S.Local t) (u : S.Thread) (hu : u ≠ t) : (s₁.goto t k' l').threads u = s.threads u := by
    rw [State.goto_threads_ne hu, hs₁]
  cases hs with
  | unlock m' k hl =>
    have hlocks (x : S.Lock) : c.locks x = ((s.setLock m' .free).locks x).atRest := by
      rw [hr.locks]
      by_cases hx : x = m'
      · subst hx
        simp [State.setLock, hl, LockState.atRest]
      · simp [State.setLock, hx]
    cases b with
    | false =>
      obtain ⟨r, hleap, hsame, hframe⟩ := hr.leap_section (i := i) hd ht hm rfl
      refine ⟨_, .inr hleap, ?_⟩
      refine hr.rebuild_outside hd hrun ⟨_, _, State.goto_threads_self⟩ rfl hsame.env.symm hlocks
        (fun _ _ ↦ rfl) hframe (fun u hu ↦ .inl ⟨hothers rfl _ _ u hu, ?_⟩) ?_
        fun v hv ↦ (hsame.mem v hv).symm
      · exact State.goto_threads_ne hu
      · rw [State.goto_threads_self, State.goto_threads_self, ← hsame.code, ← hsame.locals]
    | true =>
      obtain ⟨k₀, l₀, hct, hlead⟩ := hr.after t _ l m ht hm
      obtain ⟨r, hr', hsame⟩ := hlead s.env _ rfl
      obtain rfl := Option.some.inj hr'
      refine ⟨c, .inl rfl, ?_⟩
      refine hr.rebuild_outside hd hrun ⟨_, _, State.goto_threads_self⟩ rfl hr.env hlocks
        (fun _ _ ↦ rfl) (fun _ _ ↦ rfl) (fun u hu ↦ .inl ⟨hothers rfl _ _ u hu, rfl⟩) ?_
        fun v hv ↦ (hsame.mem v hv).symm
      obtain ⟨_, rfl, rfl, _⟩ := hsame
      rw [hct, State.goto_threads_self]
  | access v f k =>
    have hv : allows P D t (ph t) v = true := ha
    refine ⟨c, .inl rfl, ?_⟩
    refine hr.rebuild hd hrun ⟨_, _, State.goto_threads_self⟩ hr.env hr.locks (fun w hw ↦ ?_)
      (fun _ _ ↦ rfl) (fun u hu ↦ .inl ⟨hothers rfl _ _ u hu, rfl⟩)
      (fun h ↦ by cases hm.symm.trans h) (fun _ w hw ↦ hw) ?_ ?_
    · have hne : w ≠ v := by
        rintro rfl
        exact Bool.false_ne_true (hw.symm.trans hv)
      simp [State.store, hne]
    · intro k' l' m' hk' hm'
      rw [State.goto_threads_self, ThreadState.running.injEq] at hk'
      obtain ⟨rfl, rfl⟩ := hk'
      exact hr.before t _ l m' ht hm'
    · intro k' l' m' hk' hm'
      rw [State.goto_threads_self, ThreadState.running.injEq] at hk'
      obtain ⟨rfl, rfl⟩ := hk'
      exact hr.after t _ l m' ht hm'
  | act f k e l' hf =>
    have hb : b = false := by simpa [admits, hm] using ha
    subst hb
    have hnext : (ph t).next (.act f k) = (ph t).setHeld (some (m, true)) := by
      simp [Phase.next, hm]
    simp only [check, Bool.and_eq_true, hnext] at hchk
    obtain ⟨r, hfinish, he⟩ := finishSection_ends e rfl hfin hchk.2 s.mem l'
    have hsec : runSection i s.env s.mem l (.act f k) = some r := by
      simp only [runSection, hf, Option.bind_some, hfinish]
    obtain ⟨r', hleap, hsame, hframe⟩ := hr.leap_section hd ht hm hsec
    refine ⟨_, .inr hleap, ?_⟩
    rw [hnext]
    apply hr.rebuild hd hrun ⟨_, _, State.goto_threads_self⟩
    · exact hsame.env.symm.trans he
    · exact hr.locks
    · exact fun _ _ ↦ rfl
    · exact hframe
    · intro u hu
      rw [State.goto_threads_ne hu, State.goto_threads_ne hu]
      exact .inl ⟨rfl, rfl⟩
    · exact fun h ↦ by cases h
    · intro _ v hv
      rwa [allows_acted hm]
    · exact fun _ _ _ _ h ↦ by cases h
    · intro k' l₁ m' hk' _
      rw [State.goto_threads_self, ThreadState.running.injEq] at hk'
      obtain ⟨rfl, rfl⟩ := hk'
      refine ⟨r'.code, r'.locals, State.goto_threads_self, fun e' r₁ hr₁ ↦ ?_⟩
      have hr₁' : finishSection e' s.mem l' k = some r₁ := hr₁
      rw [finishSection_env e' e, hfinish] at hr₁'
      obtain rfl := Option.some.inj hr₁'
      refine ⟨_, rfl, rfl, hsame.code, hsame.locals, fun v hv ↦ hsame.mem v ?_⟩
      rwa [allows_acted hm] at hv
  | _ => simp [admits, hm] at ha

end Reduces

variable {env : S.Env} {mem : ∀ v, S.Val v} {h : List (Move S)}

theorem step_reduces (hC : Checked P D) {ph : S.Thread → Phase S} (hr : Reduces P D s c ph)
    (hd : Disciplined P D s ph) {e : Move S} (he : step P s e = some s') :
    ∃ c' ph', (c' = c ∨ leap P c e = some c') ∧ Reduces P D s' c' ph' ∧ Disciplined P D s' ph' := by
  obtain ⟨k, l, ht, hs⟩ := step_stepped he
  have hd' := hd.step hC ht hs
  cases hp : (ph e.thread).held with
  | some x =>
    obtain ⟨c', hc, hr'⟩ := hr.step_section hd ht hs hp
    exact ⟨c', _, hc, hr', hd'⟩
  | none =>
    by_cases hk : ∃ m k', k = .lock m k'
    · obtain ⟨m, k', rfl⟩ := hk
      exact ⟨c, _, .inl rfl, hr.step_lock hC hd ht hs, hd'⟩
    · obtain ⟨c', hc, hr'⟩ := hr.step_outside hd ht hs hp fun m k' hl ↦ hk ⟨m, k', hl⟩
      exact ⟨c', _, .inr hc, hr', hd'⟩

theorem run_reduces (hC : Checked P D) (hr : Run (step P) (start P env mem) h s) :
    ∃ h' c ph, h'.Sublist h ∧ Run (leap P) (start P env mem) h' c ∧ Reduces P D s c ph ∧
      Disciplined P D s ph := by
  induction hr with
  | start => exact ⟨[], _, _, .slnil, .start, .start P D env mem, .start hC env mem⟩
  | @next h s s' e _ he ih =>
    obtain ⟨h', c, ph, hsub, hrun, hred, hd⟩ := ih
    obtain ⟨c', ph', hc, hred', hd'⟩ := step_reduces hC hred hd he
    rcases hc with rfl | hc
    · exact ⟨h', c', ph', hsub.cons e, hrun, hred', hd'⟩
    · exact ⟨e :: h', c', ph', hsub.cons_cons e, hrun.next hc, hred', hd'⟩

/-- The runs of a checked program are those of the program whose sections are
single steps: wherever no lock is held, the same steps without those inside the
sections lead to the same state. -/
theorem run_atomic (hC : Checked P D) (hr : Run (step P) (start P env mem) h s)
    (hrest : ∀ m t, s.locks m ≠ .held t) :
    ∃ h', h'.Sublist h ∧ Run (leap P) (start P env mem) h' s := by
  obtain ⟨h', c, ph, hsub, hrun, hred, hd⟩ := run_reduces hC hr
  have hheld (t : S.Thread) (ht : s.Running t) : (ph t).held = none := by
    cases hp : (ph t).held with
    | none => rfl
    | some x => exact absurd ((hd.held_iff x.1 t).mpr ⟨ht, by simp [Phase.lock?, hp]⟩) (hrest x.1 t)
  have hmem : c.mem = s.mem := funext fun v ↦ hred.mem v fun t ht hp ↦ absurd (hheld t ht) hp
  have henv := hred.env
  have hthreads : c.threads = s.threads := funext fun t ↦ hred.outside t (hheld t)
  have hlocks : c.locks = s.locks := by
    funext m
    rw [hred.locks]
    cases hm : s.locks m with
    | held t => exact absurd hm (hrest m t)
    | _ => rfl
  obtain rfl : c = s := by
    cases c
    cases s
    simp_all only
  exact ⟨h', hsub, hrun⟩

end BmsFirmware.Lib.Threads
