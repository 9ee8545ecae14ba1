import BmsFirmware.Lib.LockDiscipline

namespace BmsFirmware.Lib.Threads

open Function Lib.History

variable {S : Signature} {ℓ : Type}

def Total : Code S ℓ → Prop
  | .done => True
  | .act f k => (∀ e l, ∃ i r, f i e l = some r) ∧ Total k
  | .branch _ a b k => Total a ∧ Total b ∧ Total k
  | .loop _ a k => Total a ∧ Total k
  | .create _ k | .destroy _ k | .lock _ k | .unlock _ k | .access _ _ k | .spawn _ k
  | .join _ k => Total k

@[simp] theorem total_seq {p q : Code S ℓ} : Total (p.seq q) ↔ Total p ∧ Total q := by
  induction p with
  | done => exact (iff_of_eq (true_and _)).symm
  | act f k ih => simp only [Code.seq, Total, ih, and_assoc]
  | branch c a b k _ _ ih => simp only [Code.seq, Total, ih, and_assoc]
  | loop c a k _ ih => simp only [Code.seq, Total, ih, and_assoc]
  | _ =>
    rename_i ih
    exact ih

theorem total_behind {k k' : Code S ℓ} (hk : Total k) (hb : Behind k k') : Total k' := by
  cases hb with
  | act f k => exact hk.2
  | left c p q k => exact total_seq.mpr ⟨hk.1, hk.2.2⟩
  | right c p q k => exact total_seq.mpr hk.2
  | again c p k => exact total_seq.mpr ⟨hk.1, hk⟩
  | exit c p k => exact hk.2
  | _ => exact hk

variable [DecidableEq S.Thread] [DecidableEq S.Lock]
variable {P : Program S} {D : Discipline S} {s s' : State S} {t u : S.Thread}

/-- What a thread may find when it comes to a statement on a lock or a thread:
no lock is used before its creation or after its destruction, released by a
thread that does not hold it, or taken twice. -/
def Legal (s : State S) (t : S.Thread) : Code S (S.Local t) → Prop
  | .create m _ => s.locks m = .absent
  | .destroy m _ => s.locks m = .free
  | .lock m _ => s.locks m ≠ .absent ∧ s.locks m ≠ .held t
  | .unlock m _ => s.locks m = .held t
  | .spawn u _ => s.threads u = .unborn
  | .join u _ => u ≠ t ∧ s.Running u
  | _ => True

/-- Two threads are about to use one variable. -/
def Racing (s : State S) : Prop :=
  ∃ t u v f g k k' l l', t ≠ u ∧ s.threads t = .running (.access v f k) l ∧
    s.threads u = .running (.access v g k') l'

namespace Disciplined

variable {ph : S.Thread → Phase S}

theorem legal (h : Disciplined P D s ph) {k : Code S (S.Local t)} {l : S.Local t}
    (ht : s.threads t = .running k l) : Legal s t k := by
  have ha := check_admits P D t (h.checked t k l ht)
  have hrun : s.Running t := ⟨k, l, ht⟩
  cases k with
  | create m k =>
    simp only [admits, decide_eq_true_eq] at ha
    obtain ⟨rfl, _, hm⟩ := ha
    by_contra hl
    exact hm ((h.live_iff m).mp hl)
  | destroy m k =>
    simp only [admits, decide_eq_true_eq] at ha
    obtain ⟨rfl, hheld, hm, hf⟩ := ha
    have hl := (h.live_iff m).mpr hm
    cases hs : s.locks m with
    | absent => exact absurd hs hl
    | free => exact hs
    | held u =>
      obtain ⟨hu, hown⟩ := (h.held_iff m u).mp hs
      rw [h.alone hf hu, Phase.lock?, hheld] at hown
      cases hown
  | lock m k =>
    simp only [admits, decide_eq_true_eq] at ha
    refine ⟨(h.live_iff m).mpr (h.relies t hrun m ha.2), fun hl ↦ ?_⟩
    have hown := ((h.held_iff m t).mp hl).2
    rw [Phase.lock?, ha.1] at hown
    cases hown
  | unlock m k =>
    simp only [admits, decide_eq_true_eq] at ha
    exact (h.held_iff m t).mpr ⟨hrun, ha⟩
  | spawn u k =>
    simp only [admits, decide_eq_true_eq] at ha
    obtain ⟨rfl, _, hne, hsp, _⟩ := ha
    exact h.unborn u hne hsp
  | join u k =>
    simp only [admits, decide_eq_true_eq] at ha
    obtain ⟨rfl, _, hm⟩ := ha
    exact (h.forked_iff u).mp hm
  | _ => trivial

/-- A variable is at the disposal of one thread at a time. -/
theorem exclusive (h : Disciplined P D s ph) (ht : s.Running t) (hu : s.Running u) (hne : t ≠ u)
    {v : S.Var} (htv : allows P D t (ph t) v = true) : allows P D u (ph u) v = false := by
  have hsolo (w : S.Thread) (hw : w = P.root ∧ (ph w).forked = []) : False := by
    obtain ⟨rfl, hf⟩ := hw
    exact hne ((h.alone hf ht).trans (h.alone hf hu).symm)
  by_contra huv
  simp only [allows, Bool.not_eq_false, Bool.or_eq_true, decide_eq_true_eq] at htv huv
  have htv := htv.resolve_right (hsolo t)
  have huv := huv.resolve_right (hsolo u)
  cases hg : D.guard v with
  | lock m =>
    simp only [hg, decide_eq_true_eq] at htv huv
    have hmt := (h.held_iff m t).mpr ⟨ht, htv⟩
    have hmu := (h.held_iff m u).mpr ⟨hu, huv⟩
    exact hne (LockState.held.inj (hmt.symm.trans hmu))
  | thread w =>
    simp only [hg, decide_eq_true_eq] at htv huv
    exact hne (htv.symm.trans huv)

theorem not_racing (h : Disciplined P D s ph) : ¬ Racing s := by
  rintro ⟨t, u, v, f, g, k, k', l, l', hne, ht, hu⟩
  have htv := check_admits P D t (h.checked t _ l ht)
  have huv := check_admits P D u (h.checked u _ l' hu)
  exact Bool.false_ne_true ((h.exclusive ⟨_, _, ht⟩ ⟨_, _, hu⟩ hne htv).symm.trans huv)

variable {k : Code S (S.Local t)} {l : S.Local t}

def Waiting (s : State S) : Code S (S.Local t) → Prop
  | .done => True
  | .lock m _ => ∃ u, s.locks m = .held u
  | .join u _ => ∀ l, s.threads u ≠ .running .done l
  | _ => False

/-- Inside a section a thread never waits. -/
theorem not_waiting (h : Disciplined P D s ph) (ht : s.threads t = .running k l)
    (hm : (ph t).held ≠ none) : ¬ Waiting s k := by
  have hc := h.checked t k l ht
  have ha := check_admits P D t hc
  intro hw
  cases k with
  | done => exact hm (h.held_done ht)
  | lock m k => exact hm (of_decide_eq_true ha).1
  | join u k => exact hm (of_decide_eq_true ha).2.1
  | _ => exact hw

theorem waits_for (h : Disciplined P D s ph) (hfree : ∀ u, s.Running u → (ph u).held = none)
    (ht : s.threads t = .running k l) (hw : Waiting s k) :
    k = .done ∨ ∃ u k', k = .join u k' ∧ t = P.root := by
  cases k with
  | done => exact .inl rfl
  | lock m k =>
    obtain ⟨u, hu⟩ := hw
    obtain ⟨hrun, hown⟩ := (h.held_iff m u).mp hu
    rw [Phase.lock?, hfree u hrun] at hown
    cases hown
  | join u k =>
    have ha := check_admits P D t (h.checked t _ l ht)
    exact .inr ⟨u, k, rfl, (of_decide_eq_true ha).1⟩
  | _ => exact hw.elim

structure Finished (P : Program S) (s : State S) : Prop where
  root : ∃ l, s.threads P.root = .running .done l
  joined : ∀ u, u ≠ P.root → ¬ s.Running u
  destroyed : ∀ m, s.locks m = .absent

theorem finished (h : Disciplined P D s ph) {l : S.Local P.root}
    (hr : s.threads P.root = .running .done l) : Finished P s := by
  obtain ⟨hf, hl⟩ := (of_decide_eq_true (h.checked P.root .done l hr)).2 rfl
  refine ⟨⟨l, hr⟩, fun u hu hrun ↦ hu (h.alone hf hrun), fun m ↦ ?_⟩
  by_contra hm
  have hmem := (h.live_iff m).mp hm
  rw [hl] at hmem
  exact List.not_mem_nil hmem

variable [DecidableEq S.Var]

theorem waits_or_steps [Nonempty S.Input] (h : Disciplined P D s ph)
    (ht : s.threads t = .running k l) (hk : Total k) :
    Waiting s k ∨ ∃ e s', Lib.Threads.step P s e = some s' := by
  have hlegal := h.legal ht
  have hstep (i : S.Input) {s' : State S} (hs : exec P s t i l k = some s') :
      Waiting s k ∨ ∃ e s', Lib.Threads.step P s e = some s' :=
    .inr ⟨⟨t, i⟩, s', (step_of_running ht).trans hs⟩
  obtain ⟨i⟩ := (inferInstance : Nonempty S.Input)
  cases k with
  | done => exact .inl trivial
  | create m k => exact hstep i (if_pos hlegal)
  | destroy m k => exact hstep i (if_pos hlegal)
  | lock m k =>
    cases hm : s.locks m with
    | absent => exact absurd hm hlegal.1
    | free => exact hstep i (if_pos hm)
    | held u => exact .inl ⟨u, hm⟩
  | unlock m k => exact hstep i (if_pos hlegal)
  | access v f k => exact hstep i rfl
  | act f k =>
    obtain ⟨i, r, hf⟩ := hk.1 s.env l
    exact hstep i (congrArg (Option.map _) hf)
  | spawn u k =>
    have hu : s.threads u = .unborn := hlegal
    have hs : exec P s t i l (.spawn u k) =
        some ((s.goto u (P.body u) (P.locals u)).goto t k l) := by
      simp only [exec, hu]
    exact hstep i hs
  | join u k =>
    by_cases hu : ∃ l', s.threads u = .running .done l'
    · obtain ⟨l', hu⟩ := hu
      have hs : exec P s t i l (.join u k) =
          some (State.goto { s with threads := update s.threads u .joined } t k l) := by
        simp only [exec, hu]
      exact hstep i hs
    · exact .inl (not_exists.mp hu)
  | branch c p q k => exact hstep i rfl
  | loop c p k => exact hstep i rfl

/-- Some thread can go on until the root has returned. -/
theorem progress [Nonempty S.Input] (h : Disciplined P D s ph)
    (hT : Everywhere (fun _ ↦ Total) s) :
    Finished P s ∨ ∃ e s', Lib.Threads.step P s e = some s' := by
  by_cases hsec : ∃ u, s.Running u ∧ (ph u).held ≠ none
  · obtain ⟨u, ⟨k, l, hu⟩, hm⟩ := hsec
    exact .inr ((h.waits_or_steps hu (hT u k l hu)).resolve_left (h.not_waiting hu hm))
  · have hfree (u : S.Thread) (hu : s.Running u) : (ph u).held = none := by
      by_contra hm
      exact hsec ⟨u, hu, hm⟩
    obtain ⟨k, l, hr⟩ := h.root
    rcases h.waits_or_steps hr (hT _ k l hr) with hw | hs
    · rcases h.waits_for hfree hr hw with rfl | ⟨u, k', rfl, _⟩
      · exact .inl (h.finished hr)
      · obtain ⟨hne, k₁, l₁, hu⟩ := h.legal hr
        rcases h.waits_or_steps hu (hT u k₁ l₁ hu) with hwu | hs
        · rcases h.waits_for hfree hu hwu with rfl | ⟨_, _, _, hroot⟩
          · exact absurd hu (hw l₁)
          · exact absurd hroot hne
        · exact .inr hs
    · exact .inr hs

end Disciplined

variable [DecidableEq S.Var] {env : S.Env} {mem : ∀ v, S.Val v} {h : List (Move S)}

/-- A checked program is free of data races and of misuse of its locks and
threads, in all its runs. -/
theorem run_safe (hC : Checked P D) (hr : Run (step P) (start P env mem) h s) :
    ¬ Racing s ∧ ∀ t k l, s.threads t = .running k l → Legal s t k := by
  obtain ⟨ph, hd⟩ := run_disciplined hC hr
  exact ⟨hd.not_racing, fun t k l ↦ hd.legal⟩

/-- A checked program whose acts are never blocked for good has no deadlock: it
stops only when the root has returned, all threads joined and all locks destroyed. -/
theorem run_progress [Nonempty S.Input] (hC : Checked P D) (hT : ∀ t, Total (P.body t))
    (hr : Run (step P) (start P env mem) h s) :
    Disciplined.Finished P s ∨ ∃ e s', step P s e = some s' := by
  obtain ⟨ph, hd⟩ := run_disciplined hC hr
  exact hd.progress (run_everywhere hT (fun _ _ _ ↦ total_behind) hr)

end BmsFirmware.Lib.Threads
