import Mathlib.Data.List.Basic

namespace BmsFirmware.Lib.History

variable {σ τ ε δ : Type} {step : σ → ε → Option σ} {init : σ}

/-- The latest moment of a history, or an earlier one. -/
theorem cons_suffix_cons_iff {e e' : ε} {h h₁ : List ε} :
    e' :: h₁ <:+ e :: h ↔ e' = e ∧ h₁ = h ∨ e' :: h₁ <:+ h := by
  rw [List.suffix_cons_iff, List.cons.injEq]

theorem forall_moments_cons {P : ε → List ε → Prop} {e : ε} {h : List ε} :
    (∀ e' h₁, e' :: h₁ <:+ e :: h → P e' h₁) ↔ P e h ∧ ∀ e' h₁, e' :: h₁ <:+ h → P e' h₁ := by
  constructor
  · intro hall
    refine ⟨hall e h List.suffix_rfl, fun e' h₁ hsuf ↦ ?_⟩
    exact hall e' h₁ (cons_suffix_cons_iff.mpr (.inr hsuf))
  · rintro ⟨hlast, hrest⟩ e' h₁ hsuf
    rcases cons_suffix_cons_iff.mp hsuf with ⟨rfl, rfl⟩ | hsuf
    · exact hlast
    · exact hrest e' h₁ hsuf

/-- The runs of a partial step function. A history lists the events of a run
newest first, so every suffix of it is an earlier moment of the same run. -/
inductive Run (step : σ → ε → Option σ) (init : σ) : List ε → σ → Prop
  | start : Run step init [] init
  | next {h : List ε} {s s' : σ} {e : ε} :
      Run step init h s → step s e = some s' → Run step init (e :: h) s'

theorem run_nil_iff {s : σ} : Run step init [] s ↔ s = init := by
  constructor
  · intro h
    cases h
    rfl
  · intro hs
    subst hs
    exact .start

theorem run_cons_iff {h : List ε} {e : ε} {s' : σ} :
    Run step init (e :: h) s' ↔ ∃ s, Run step init h s ∧ step s e = some s' := by
  constructor
  · intro hr
    cases hr with
    | next hs he => exact ⟨_, hs, he⟩
  · intro hrun
    obtain ⟨s, hs, he⟩ := hrun
    exact hs.next he

def replay (step : σ → ε → Option σ) (init : σ) (h : List ε) : Option σ :=
  h.foldr (fun e s ↦ s.bind (step · e)) (some init)

theorem run_iff_replay {h : List ε} {s : σ} : Run step init h s ↔ replay step init h = some s := by
  induction h generalizing s with
  | nil =>
    rw [run_nil_iff]
    exact ⟨fun h ↦ h ▸ rfl, fun h ↦ (Option.some.inj h).symm⟩
  | cons e h ih =>
    have hc : replay step init (e :: h) = (replay step init h).bind (step · e) := rfl
    rw [run_cons_iff, hc, Option.bind_eq_some_iff]
    simp only [ih]

/-- A run on a fixed history, with what evaluation says about its last state. -/
theorem exists_run {α : Type} (f : σ → α) {h : List ε} {v : α}
    (hv : (replay step init h).map f = some v) : ∃ s, Run step init h s ∧ f s = v := by
  obtain ⟨s, hs, hf⟩ := Option.map_eq_some_iff.mp hv
  exact ⟨s, run_iff_replay.mpr hs, hf⟩

theorem Run.det {h : List ε} {s t : σ} (hs : Run step init h s) (ht : Run step init h t) :
    s = t :=
  Option.some.inj ((run_iff_replay.mp hs).symm.trans (run_iff_replay.mp ht))

/-- A run can be cut at any of its moments: the later part is a run that
starts in the state reached there. -/
theorem run_append_iff {h₁ h₂ : List ε} {s : σ} :
    Run step init (h₂ ++ h₁) s ↔ ∃ s₁, Run step init h₁ s₁ ∧ Run step s₁ h₂ s := by
  induction h₂ generalizing s with
  | nil =>
    simp only [List.nil_append, run_nil_iff]
    exact ⟨fun h ↦ ⟨s, h, rfl⟩, by rintro ⟨_, h, rfl⟩; exact h⟩
  | cons e h₂ ih =>
    simp only [List.cons_append, run_cons_iff, ih]
    constructor
    · intro hrun
      obtain ⟨s', ⟨s₁, h₁, h₂⟩, he⟩ := hrun
      exact ⟨s₁, h₁, s', h₂, he⟩
    · intro hrun
      obtain ⟨s₁, h₁, s', h₂, he⟩ := hrun
      exact ⟨s', ⟨s₁, h₁, h₂⟩, he⟩

theorem Run.rest {h₁ h₂ : List ε} {s₁ s : σ} (hr : Run step init (h₂ ++ h₁) s)
    (hs₁ : Run step init h₁ s₁) : Run step s₁ h₂ s := by
  obtain ⟨s₁', hs₁', hrest⟩ := run_append_iff.mp hr
  obtain rfl := hs₁'.det hs₁
  exact hrest

theorem Run.cut {h₁ h₂ : List ε} {e : ε} {s₀ s : σ} (hr : Run step init (h₂ ++ e :: h₁) s)
    (h₀ : Run step init h₁ s₀) : ∃ s₁, step s₀ e = some s₁ ∧ Run step s₁ h₂ s := by
  obtain ⟨s₁, hr₁, hrest⟩ := run_append_iff.mp hr
  obtain ⟨s₀', hr₀, he⟩ := run_cons_iff.mp hr₁
  obtain rfl := hr₀.det h₀
  exact ⟨s₁, he, hrest⟩

theorem Run.of_suffix {h h₁ : List ε} {s : σ} (hr : Run step init h s) (hh : h₁ <:+ h) :
    ∃ s₁, Run step init h₁ s₁ := by
  obtain ⟨h₂, rfl⟩ := hh
  obtain ⟨s₁, hs₁, _⟩ := run_append_iff.mp hr
  exact ⟨s₁, hs₁⟩

/-- What holds at the start and is kept by every step holds ever after. With
`init` the state of some moment this is also the rule for stable properties. -/
theorem Run.invariant {I : σ → Prop} (h₀ : I init)
    (hstep : ∀ s e s', I s → step s e = some s' → I s')
    {h : List ε} {s : σ} (hr : Run step init h s) : I s := by
  induction hr with
  | start => exact h₀
  | next _ he ih => exact hstep _ _ _ ih he

theorem Run.history_invariant {R : List ε → σ → Prop} (h₀ : R [] init)
    (hstep : ∀ h s e s', R h s → step s e = some s' → R (e :: h) s')
    {h : List ε} {s : σ} (hr : Run step init h s) : R h s := by
  induction hr with
  | start => exact h₀
  | next _ he ih => exact hstep _ _ _ _ ih he

/-- A component of a system whose steps are either steps of the component or
leave it alone makes a run of its own inside every run of the system. -/
theorem Run.component {stepτ : τ → δ → Option τ} (proj : σ → τ) (A : ε → Prop) (B : δ → Prop)
    (hstep : ∀ s e s', A e → step s e = some s' →
      proj s' = proj s ∨ ∃ d, B d ∧ stepτ (proj s) d = some (proj s'))
    {h : List ε} {s : σ} (hr : Run step init h s) (hA : ∀ e ∈ h, A e) :
    ∃ k, Run stepτ (proj init) k (proj s) ∧ ∀ d ∈ k, B d := by
  induction hr with
  | start => exact ⟨[], .start, by simp⟩
  | @next h s s' e _ he ih =>
    obtain ⟨k, hk, hB⟩ := ih (fun e' he' ↦ hA e' (List.mem_cons_of_mem _ he'))
    rcases hstep s e s' (hA e List.mem_cons_self) he with hsame | ⟨d, hd, hds⟩
    · exact ⟨k, hsame ▸ hk, hB⟩
    · exact ⟨d :: k, hk.next hds, by simpa using ⟨hd, hB⟩⟩

/-- The view of a run through a projection, when every event either is one of the
viewed component or leaves it alone. -/
theorem Run.project {stepτ : τ → δ → Option τ} (proj : σ → τ) (f : ε → Option δ)
    (hstay : ∀ h s e s', Run step init h s → step s e = some s' → f e = none → proj s' = proj s)
    (hmove : ∀ h s e s' d, Run step init h s → step s e = some s' → f e = some d →
      stepτ (proj s) d = some (proj s'))
    {h : List ε} {s : σ} (hr : Run step init h s) :
    Run stepτ (proj init) (h.filterMap f) (proj s) := by
  induction hr with
  | start => exact .start
  | @next h s s' e hs he ih =>
    cases hf : f e with
    | none =>
      rw [List.filterMap_cons_none hf, hstay h s e s' hs he hf]
      exact ih
    | some d =>
      rw [List.filterMap_cons_some hf]
      exact ih.next (hmove h s e s' d hs he hf)

/-- A stretch through states in `U` from each of which there is one way to go on. -/
inductive Forced (step : σ → ε → Option σ) (U : σ → Prop) : σ → σ → Prop
  | refl (s : σ) : Forced step U s s
  | cons {s s₁ s₂ : σ} (hs : U s) (hone : ∀ e s', step s e = some s' → s' = s₁)
      (hrest : Forced step U s₁ s₂) : Forced step U s s₂

theorem Forced.trans {U : σ → Prop} {s s₁ s₂ : σ} (h₁ : Forced step U s s₁)
    (h₂ : Forced step U s₁ s₂) : Forced step U s s₂ := by
  induction h₁ with
  | refl => exact h₂
  | cons hs hone _ ih => exact .cons hs hone (ih h₂)

/-- A run either ends within a forced stretch or goes through its end. -/
theorem Forced.run {U : σ → Prop} {s s₁ s' : σ} (hf : Forced step U s s₁) {h : List ε}
    (hr : Run step s h s') : U s' ∨ ∃ h' h₀, h = h' ++ h₀ ∧ Run step s₁ h' s' := by
  induction hf generalizing h with
  | refl s => exact .inr ⟨h, [], (List.append_nil h).symm, hr⟩
  | cons hs hone _ ih =>
    rcases List.eq_nil_or_concat h with rfl | ⟨h₁, e, rfl⟩
    · exact .inl (run_nil_iff.mp hr ▸ hs)
    · rw [List.concat_eq_append] at hr ⊢
      obtain ⟨s₀, h₀, hr'⟩ := run_append_iff.mp hr
      obtain ⟨s₀', h₀', he⟩ := run_cons_iff.mp h₀
      obtain rfl := run_nil_iff.mp h₀'
      obtain rfl := hone e s₀ he
      rcases ih hr' with hu | ⟨h', h₂, rfl, hr₁⟩
      · exact .inl hu
      · exact .inr ⟨h', h₂ ++ [e], List.append_assoc .., hr₁⟩

end BmsFirmware.Lib.History
