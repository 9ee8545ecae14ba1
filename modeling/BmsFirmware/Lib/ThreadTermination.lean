import BmsFirmware.Lib.ThreadSafety
import Mathlib.Algebra.Order.BigOperators.Group.Finset
import Mathlib.Data.Fintype.Defs

namespace BmsFirmware.Lib.Threads

open Function Lib.History

variable {S : Signature} {ℓ : Type}

def Exits (E : S.Env → Prop) : Code S ℓ → Prop
  | .done => True
  | .act f k => (∀ i e l r, E e → f i e l = some r → E r.1) ∧ Exits E k
  | .branch _ a b k => Exits E a ∧ Exits E b ∧ Exits E k
  | .loop c a k => (∀ e l, E e → c e l = false) ∧ Exits E a ∧ Exits E k
  | .create _ k | .destroy _ k | .lock _ k | .unlock _ k | .access _ _ k | .spawn _ k
  | .join _ k => Exits E k

@[simp] theorem exits_seq {E : S.Env → Prop} {p q : Code S ℓ} :
    Exits E (p.seq q) ↔ Exits E p ∧ Exits E q := by
  induction p with
  | done => exact (iff_of_eq (true_and _)).symm
  | act f k ih => simp only [Code.seq, Exits, ih, and_assoc]
  | branch c a b k _ _ ih => simp only [Code.seq, Exits, ih, and_assoc]
  | loop c a k _ ih => simp only [Code.seq, Exits, ih, and_assoc]
  | _ =>
    rename_i ih
    exact ih

theorem exits_behind {E : S.Env → Prop} {k k' : Code S ℓ} (hk : Exits E k) (hb : Behind k k') :
    Exits E k' := by
  cases hb with
  | act f k => exact hk.2
  | left c p q k => exact exits_seq.mpr ⟨hk.1, hk.2.2⟩
  | right c p q k => exact exits_seq.mpr hk.2
  | again c p k => exact exits_seq.mpr ⟨hk.2.1, hk⟩
  | exit c p k => exact hk.2.2
  | _ => exact hk

/-- The steps that a code can take when no loop goes on. -/
def size : Code S ℓ → ℕ
  | .done => 0
  | .branch _ a b k => 1 + max (size a) (size b) + size k
  | .create _ k | .destroy _ k | .lock _ k | .unlock _ k | .access _ _ k | .act _ k | .spawn _ k
  | .join _ k | .loop _ _ k => 1 + size k

def peak : Code S ℓ → ℕ
  | .done => 0
  | .branch c a b k =>
    max (size (.branch c a b k)) (max (max (peak a) (peak b) + size k) (peak k))
  | .loop _ a k => max (peak a + (1 + size k)) (peak k)
  | .create _ k | .destroy _ k | .lock _ k | .unlock _ k | .access _ _ k | .act _ k | .spawn _ k
  | .join _ k => max (1 + size k) (peak k)

theorem size_seq (p q : Code S ℓ) : size (p.seq q) = size p + size q := by
  induction p <;> simp_all [Code.seq, size, Nat.add_assoc]

theorem size_le_peak (k : Code S ℓ) : size k ≤ peak k := by
  cases k <;> simp only [size, peak] <;> omega

theorem peak_seq (p q : Code S ℓ) : peak (p.seq q) ≤ max (peak p + size q) (peak q) := by
  induction p with
  | done => simp [peak]
  | branch c a b k _ _ ih =>
    simp only [Code.seq, peak, size, size_seq]
    omega
  | loop c a k _ ih =>
    simp only [Code.seq, peak, size_seq]
    omega
  | _ =>
    rename_i ih
    simp only [Code.seq, peak, size_seq]
    omega

theorem peak_behind {k k' : Code S ℓ} (hb : Behind k k') : peak k' ≤ peak k := by
  cases hb with
  | left c p q k =>
    have := peak_seq p k
    simp only [peak, size]
    omega
  | right c p q k =>
    have := peak_seq q k
    simp only [peak, size]
    omega
  | again c p k =>
    have := peak_seq p (.loop c p k)
    simp only [peak, size] at this ⊢
    omega
  | _ =>
    simp only [peak]
    omega

variable [DecidableEq S.Thread] [DecidableEq S.Lock] [DecidableEq S.Var]
variable {P : Program S} {D : Discipline S} {E : S.Env → Prop} {s s' : State S} {t : S.Thread}

theorem Stepped.size_lt {i : S.Input} {l : S.Local t} {k : Code S (S.Local t)} (hE : E s.env)
    (hk : Exits E k) (h : Stepped P s t i l k s') :
    E s'.env ∧ ∃ k' l', s'.threads t = .running k' l' ∧ size k' < size k := by
  cases h with
  | act f k e l' hf =>
    exact ⟨hk.1 i s.env l (e, l') hE hf, k, l', State.goto_threads_self, by simp [size]⟩
  | branch c p q k =>
    refine ⟨hE, _, l, State.goto_threads_self, ?_⟩
    split_ifs <;> simp only [size, size_seq] <;> omega
  | loop c p k =>
    refine ⟨hE, _, l, State.goto_threads_self, ?_⟩
    rw [if_neg (by simp [hk.1 s.env l hE])]
    simp [size]
  | _ => exact ⟨hE, _, _, State.goto_threads_self, by simp [size]⟩

def pending (P : Program S) (t : S.Thread) :
    ThreadState (Code S (S.Local t)) (S.Local t) → ℕ
  | .unborn => 1 + size (P.body t)
  | .running k _ => size k
  | .joined => 0

variable [Fintype S.Thread]

def remaining (P : Program S) (s : State S) : ℕ := ∑ t, pending P t (s.threads t)

theorem step_remaining (hE : E s.env) (hX : Everywhere (fun _ ↦ Exits E) s) {e : Move S}
    (he : step P s e = some s') : E s'.env ∧ remaining P s' < remaining P s := by
  obtain ⟨k, l, ht, hs⟩ := step_stepped he
  obtain ⟨hE', k', l', ht', hlt⟩ := hs.size_lt hE (hX _ k l ht)
  have hself : pending P e.thread (s'.threads e.thread) < pending P e.thread (s.threads e.thread) :=
    by rwa [ht, ht']
  refine ⟨hE', Finset.sum_lt_sum (fun u _ ↦ ?_) ⟨e.thread, Finset.mem_univ _, hself⟩⟩
  by_cases hu : u = e.thread
  · exact hu ▸ hself.le
  · rcases (hs.threads ht).2 u hu with hsame | ⟨hold, hnew⟩ | ⟨_, hnew⟩
    · rw [hsame]
    · rw [hold, hnew]
      exact Nat.le_add_left _ 1
    · rw [hnew]
      exact Nat.zero_le _

theorem run_remaining (hE : E s.env) (hX : Everywhere (fun _ ↦ Exits E) s)
    (hbody : ∀ t, Exits E (P.body t)) {h : List (Move S)} (hr : Run (step P) s h s') :
    E s'.env ∧ Everywhere (fun _ ↦ Exits E) s' ∧ h.length + remaining P s' ≤ remaining P s := by
  induction hr with
  | start => exact ⟨hE, hX, by simp⟩
  | next _ he ih =>
    obtain ⟨hE₁, hX₁, hle⟩ := ih
    obtain ⟨hE₂, hlt⟩ := step_remaining hE₁ hX₁ he
    refine ⟨hE₂, hX₁.step hbody (fun _ _ _ ↦ exits_behind) he, ?_⟩
    rw [List.length_cons]
    omega

theorem remaining_le {env : S.Env} {mem : ∀ v, S.Val v} {h : List (Move S)}
    (hr : Run (step P) (start P env mem) h s) :
    remaining P s ≤ ∑ t, (1 + peak (P.body t)) := by
  have hpeak := run_everywhere (C := fun t k ↦ peak k ≤ peak (P.body t)) (fun _ ↦ le_rfl)
    (fun _ _ _ hk hb ↦ (peak_behind hb).trans hk) hr
  refine Finset.sum_le_sum fun t _ ↦ ?_
  have hbody := size_le_peak (P.body t)
  cases ht : s.threads t with
  | unborn => simpa [pending] using hbody
  | running k l =>
    have hk := (size_le_peak k).trans (hpeak t k l ht)
    simp only [pending]
    omega
  | joined => exact Nat.zero_le _

/-- Once the environment is in `E`, only so many steps are left, and those who
take them finish the program. -/
theorem run_exits [Nonempty S.Input] (hC : Checked P D) (hT : ∀ t, Total (P.body t))
    (hX : ∀ t, Exits E (P.body t)) {env : S.Env} {mem : ∀ v, S.Val v} {h : List (Move S)}
    (hr : Run (step P) (start P env mem) h s) (hE : E s.env) :
    (∀ h' s', Run (step P) s h' s' → h'.length ≤ ∑ t, (1 + peak (P.body t)) ∧
      (Disciplined.Finished P s' ∨ ∃ e s'', step P s' e = some s'')) ∧
    ∃ h' s', Run (step P) s h' s' ∧ Disciplined.Finished P s' := by
  have hXs := run_everywhere hX (fun _ _ _ ↦ exits_behind) hr
  refine ⟨fun h' s' hr' ↦ ⟨?_, run_progress hC hT (run_append_iff.mpr ⟨s, hr, hr'⟩)⟩, ?_⟩
  · obtain ⟨_, _, hle⟩ := run_remaining hE hXs hX hr'
    have := remaining_le hr
    omega
  · generalize hn : remaining P s = n
    induction n using Nat.strong_induction_on generalizing s h with
    | _ n ih =>
      rcases run_progress hC hT hr with hfin | ⟨e, s', he⟩
      · exact ⟨[], s, .start, hfin⟩
      · obtain ⟨hE', hlt⟩ := step_remaining hE hXs he
        obtain ⟨h', s'', hr', hfin⟩ := ih _ (hn ▸ hlt) (hr.next he) hE'
          (run_everywhere hX (fun _ _ _ ↦ exits_behind) (hr.next he)) rfl
        exact ⟨h' ++ [e], s'', run_append_iff.mpr ⟨s', Run.start.next he, hr'⟩, hfin⟩

end BmsFirmware.Lib.Threads
