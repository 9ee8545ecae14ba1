import BmsFirmware.Lib.History
import Mathlib.Data.Fintype.Card
import Mathlib.Data.List.Nodup
import Mathlib.Logic.Function.Basic
import Mathlib.Order.Nat
import Mathlib.Tactic.SplitIfs

namespace BmsFirmware.Lib.Registration

open History

variable {τ α : Type} {n : ℕ}

/-- A table of `n` entries that concurrent calls fill. A call tests the capacity
first and waits for the lock under which it inserts its entry. -/
structure Table (τ α : Type) (n : ℕ) where
  entries : Vector α n
  count : ℕ
  waiting : τ → Option α

inductive TableAction (α : Type)
  | test (x : α)
  | insert

namespace Table

def init (blank : α) : Table τ α n where
  entries := Vector.replicate n blank
  count := 0
  waiting := fun _ ↦ none

def HasRoom (s : Table τ α n) : Prop :=
  ∀ L : List τ, L.Nodup → (∀ t ∈ L, s.waiting t ≠ none) → s.count + L.length < n

def Fits (s : Table τ α n) : Prop :=
  ∀ L : List τ, L.Nodup → (∀ t ∈ L, s.waiting t ≠ none) → s.count + L.length ≤ n

theorem Fits.count_le {s : Table τ α n} (h : s.Fits) : s.count ≤ n :=
  h [] List.nodup_nil (by simp)

theorem init_fits (blank : α) : (init blank : Table τ α n).Fits := by
  intro L _ hall
  cases L with
  | nil => exact Nat.zero_le n
  | cons t L => exact absurd rfl (hall t List.mem_cons_self)

/-- There is room as long as each thread can still have an entry. -/
theorem fits_of_card [Fintype τ] {s : Table τ α n} (h : s.count + Fintype.card τ ≤ n) :
    s.Fits := by
  intro L hL _
  have hle := hL.length_le_card
  omega

variable [DecidableEq τ]

def passed (s : Table τ α n) (t : τ) (x : α) : Table τ α n :=
  { s with waiting := Function.update s.waiting t (some x) }

def inserted (s : Table τ α n) (t : τ) (x : α) : Table τ α n where
  entries := s.entries.setIfInBounds s.count x
  count := s.count + 1
  waiting := Function.update s.waiting t none

@[simp] theorem passed_count (s : Table τ α n) (t : τ) (x : α) :
    (s.passed t x).count = s.count := rfl

@[simp] theorem inserted_count (s : Table τ α n) (t : τ) (x : α) :
    (s.inserted t x).count = s.count + 1 := rfl

@[simp] theorem passed_waiting_self (s : Table τ α n) (t : τ) (x : α) :
    (s.passed t x).waiting t = some x :=
  Function.update_self ..

@[simp] theorem inserted_waiting_self (s : Table τ α n) (t : τ) (x : α) :
    (s.inserted t x).waiting t = none :=
  Function.update_self ..

theorem passed_waiting_ne (s : Table τ α n) {t u : τ} (x : α) (h : u ≠ t) :
    (s.passed t x).waiting u = s.waiting u :=
  Function.update_of_ne h ..

theorem inserted_waiting_ne (s : Table τ α n) {t u : τ} (x : α) (h : u ≠ t) :
    (s.inserted t x).waiting u = s.waiting u :=
  Function.update_of_ne h ..

def step (s : Table τ α n) (e : τ × TableAction α) : Option (Table τ α n) :=
  match e.2, s.waiting e.1 with
  | .test x, none => if n ≤ s.count then some s else some (s.passed e.1 x)
  | .insert, some x => some (s.inserted e.1 x)
  | _, _ => none

inductive Stepped (s : Table τ α n) (t : τ) : TableAction α → Table τ α n → Prop
  | full (x : α) (hw : s.waiting t = none) (hc : n ≤ s.count) : Stepped s t (.test x) s
  | test (x : α) (hw : s.waiting t = none) (hc : s.count < n) :
      Stepped s t (.test x) (s.passed t x)
  | insert (x : α) (hw : s.waiting t = some x) : Stepped s t .insert (s.inserted t x)

theorem step_stepped {s s' : Table τ α n} {t : τ} {a : TableAction α}
    (h : s.step (t, a) = some s') : Stepped s t a s' := by
  cases a with
  | test x =>
    cases hw : s.waiting t with
    | some y => simp [step, hw] at h
    | none =>
      simp only [step, hw] at h
      split_ifs at h with hc
      · exact Option.some.inj h ▸ .full x hw hc
      · exact Option.some.inj h ▸ .test x hw (Nat.lt_of_not_le hc)
  | insert =>
    cases hw : s.waiting t with
    | none => simp [step, hw] at h
    | some x =>
      simp only [step, hw, Option.some.injEq] at h
      exact h ▸ .insert x hw

theorem HasRoom.passed {s : Table τ α n} (h : s.HasRoom) (t : τ) (x : α) : (s.passed t x).Fits := by
  intro L hL hall
  have hold : ∀ u ∈ L.erase t, s.waiting u ≠ none := by
    intro u hu
    have hne : u ≠ t := fun hut ↦ hL.not_mem_erase (hut ▸ hu)
    have hw := hall u (List.mem_of_mem_erase hu)
    rwa [passed_waiting_ne s x hne] at hw
  have hlt := h (L.erase t) (hL.erase t) hold
  have herase : L.length - 1 ≤ (L.erase t).length := List.le_length_erase
  rw [passed_count]
  omega

theorem Fits.inserted {s : Table τ α n} (h : s.Fits) {t : τ} {x : α} (hw : s.waiting t = some x) :
    (s.inserted t x).Fits := by
  intro L hL hall
  have ht : t ∉ L := by
    intro ht
    exact hall t ht (inserted_waiting_self s t x)
  have hold : ∀ u ∈ t :: L, s.waiting u ≠ none := by
    refine List.forall_mem_cons.mpr ⟨by simp [hw], fun u hu ↦ ?_⟩
    have hne : u ≠ t := fun hut ↦ ht (hut ▸ hu)
    have hwu := hall u hu
    rwa [inserted_waiting_ne s x hne] at hwu
  have hle := h (t :: L) (List.nodup_cons.mpr ⟨ht, hL⟩) hold
  rw [List.length_cons] at hle
  rw [inserted_count]
  omega

theorem Fits.of_passed {s : Table τ α n} {t : τ} {x : α} (h : (s.passed t x).Fits)
    (hw : s.waiting t = none) : s.HasRoom := by
  intro L hL hall
  have ht : t ∉ L := fun ht ↦ hall t ht hw
  have hnew : ∀ u ∈ t :: L, (s.passed t x).waiting u ≠ none := by
    refine List.forall_mem_cons.mpr ⟨by simp, fun u hu ↦ ?_⟩
    have hne : u ≠ t := fun hut ↦ ht (hut ▸ hu)
    rw [passed_waiting_ne s x hne]
    exact hall u hu
  have hle := h (t :: L) (List.nodup_cons.mpr ⟨ht, hL⟩) hnew
  rw [passed_count, List.length_cons] at hle
  omega

theorem Fits.of_inserted {s : Table τ α n} {t : τ} {x : α} (h : (s.inserted t x).Fits) :
    s.Fits := by
  intro L hL hall
  have hnew : ∀ u ∈ L.erase t, (s.inserted t x).waiting u ≠ none := by
    intro u hu
    have hne : u ≠ t := fun hut ↦ hL.not_mem_erase (hut ▸ hu)
    rw [inserted_waiting_ne s x hne]
    exact hall u (List.mem_of_mem_erase hu)
  have hle := h (L.erase t) (hL.erase t) hnew
  have herase : L.length - 1 ≤ (L.erase t).length := List.le_length_erase
  rw [inserted_count] at hle
  omega

/-- Every capacity test that a call has passed found room for the waiting calls as well. -/
def Reserved (n : ℕ) (blank : α) (h : List (τ × TableAction α)) : Prop :=
  ∀ t x h₁ (s₁ : Table τ α n), (t, .test x) :: h₁ <:+ h → Run step (init blank) h₁ s₁ →
    s₁.count < n → s₁.HasRoom

theorem reserved_cons {blank : α} {e : τ × TableAction α} {h : List (τ × TableAction α)} :
    Reserved n blank (e :: h) ↔ Reserved n blank h ∧
      ∀ t x (s : Table τ α n), e = (t, .test x) → Run step (init blank) h s → s.count < n →
        s.HasRoom := by
  constructor
  · intro hres
    refine ⟨fun t x h₁ s₁ hsuf ↦ hres t x h₁ s₁ (hsuf.trans (List.suffix_cons e h)), ?_⟩
    intro t x s he
    exact hres t x h s (he ▸ List.suffix_rfl)
  · intro hres t x h₁ s₁ hsuf
    rcases cons_suffix_cons_iff.mp hsuf with ⟨he, rfl⟩ | hsuf
    · exact hres.2 t x s₁ he.symm
    · exact hres.1 t x h₁ s₁ hsuf

/-- The table and the waiting calls fit after a run exactly if no capacity test
of the run counted on an entry that a waiting call was going to take. -/
theorem fits_iff_reserved {blank : α} {h : List (τ × TableAction α)} {s : Table τ α n}
    (hr : Run step (init blank) h s) : s.Fits ↔ Reserved n blank h := by
  induction hr with
  | start => exact iff_of_true (init_fits blank) fun t x h₁ s₁ hsuf ↦ by simp at hsuf
  | @next h s s' e hs he ih =>
    rw [reserved_cons, ← ih]
    obtain ⟨t, a⟩ := e
    cases step_stepped he with
    | full x hw hc =>
      refine ⟨fun hf ↦ ⟨hf, fun t' x' s₁ _ hs₁ hlt ↦ ?_⟩, fun hf ↦ hf.1⟩
      obtain rfl := hs₁.det hs
      exact absurd hlt hc.not_gt
    | test x hw hc =>
      constructor
      · intro hf
        have hroom := hf.of_passed hw
        refine ⟨fun L hL hall ↦ (hroom L hL hall).le, fun t' x' s₁ _ hs₁ _ ↦ ?_⟩
        exact hs₁.det hs ▸ hroom
      · intro hf
        exact (hf.2 t x s rfl hs hc).passed t x
    | insert x hw =>
      refine ⟨fun hf ↦ ⟨hf.of_inserted, fun t' x' s₁ heq ↦ ?_⟩, fun hf ↦ hf.1.inserted hw⟩
      simp at heq

/-- Distinct waiting calls can insert their entries one after the other. -/
theorem exists_inserts {s : Table τ α n} {L : List τ} (hL : L.Nodup)
    (hall : ∀ t ∈ L, s.waiting t ≠ none) :
    ∃ k s', (∀ e ∈ k, e.2 = .insert) ∧ Run step s k s' ∧ s'.count = s.count + L.length ∧
      ∀ u, u ∉ L → s'.waiting u = s.waiting u := by
  induction L with
  | nil => exact ⟨[], s, by simp, .start, rfl, fun u _ ↦ rfl⟩
  | cons t L ih =>
    obtain ⟨ht, hL⟩ := List.nodup_cons.mp hL
    obtain ⟨hwt, hall⟩ := List.forall_mem_cons.mp hall
    obtain ⟨k, s', hk, hr, hcount, hrest⟩ := ih hL hall
    obtain ⟨x, hx⟩ := Option.ne_none_iff_exists'.mp ((hrest t ht).symm ▸ hwt)
    have he : step s' (t, .insert) = some (s'.inserted t x) := by simp only [step, hx]
    refine ⟨(t, .insert) :: k, s'.inserted t x, ?_, hr.next he, ?_, fun u hu ↦ ?_⟩
    · exact List.forall_mem_cons.mpr ⟨rfl, hk⟩
    · rw [inserted_count, hcount, List.length_cons, Nat.add_assoc]
    · obtain ⟨hut, hu⟩ := List.ne_and_not_mem_of_not_mem_cons hu
      rw [inserted_waiting_ne s' x hut, hrest u hu]

theorem Fits.inserts {s s' : Table τ α n} {k : List (τ × TableAction α)} (h : s.Fits)
    (hk : ∀ e ∈ k, e.2 = .insert) (hr : Run step s k s') : s'.Fits := by
  induction hr with
  | start => exact h
  | @next k s₁ s₂ e hs he ih =>
    obtain ⟨t, a⟩ := e
    obtain ⟨rfl, hks⟩ := List.forall_mem_cons.mp hk
    cases step_stepped he with
    | insert x hw => exact (ih hks).inserted hw

theorem fits_iff_inserts (s : Table τ α n) :
    s.Fits ↔ ∀ k s', (∀ e ∈ k, e.2 = .insert) → Run step s k s' → s'.count ≤ n := by
  constructor
  · intro h k s' hk hr
    exact (h.inserts hk hr).count_le
  · intro h L hL hall
    obtain ⟨k, s', hk, hr, hcount, _⟩ := exists_inserts hL hall
    exact hcount ▸ h k s' hk hr

structure Sound (blank : α) (h : List (τ × TableAction α)) (s : Table τ α n) : Prop where
  count_le : s.count ≤ n
  kept : ∀ t x h₁ (s₁ : Table τ α n), (t, .insert) :: h₁ <:+ h → Run step (init blank) h₁ s₁ →
    s₁.waiting t = some x → s₁.count < n ∧ s₁.count < s.count ∧ s.entries[s₁.count]? = some x
  apart : ∀ t u h₁ h₂ (s₁ s₂ : Table τ α n), (t, .insert) :: h₁ <:+ h →
    (u, .insert) :: h₂ <:+ h₁ → Run step (init blank) h₁ s₁ → Run step (init blank) h₂ s₂ →
    s₂.count < s₁.count

theorem step_count_le {s s' : Table τ α n} {e : τ × TableAction α} (he : s.step e = some s') :
    s.count ≤ s'.count := by
  obtain ⟨t, a⟩ := e
  cases step_stepped he with
  | full x hw hc => exact Nat.le_refl _
  | test x hw hc => exact Nat.le_refl _
  | insert x hw => exact Nat.le_succ _

theorem run_count_le {s s' : Table τ α n} {k : List (τ × TableAction α)} (hr : Run step s k s') :
    s.count ≤ s'.count :=
  hr.invariant (I := fun s' ↦ s.count ≤ s'.count) (Nat.le_refl _)
    fun _ _ _ hle he ↦ hle.trans (step_count_le he)

theorem run_kept {blank : α} {h : List (τ × TableAction α)} {s : Table τ α n}
    (hr : Run step (init blank) h s) (hn : s.count ≤ n) {t : τ} {x : α}
    {h₁ : List (τ × TableAction α)} {s₁ : Table τ α n} (hsuf : (t, .insert) :: h₁ <:+ h)
    (hr₁ : Run step (init blank) h₁ s₁)
    (hw : s₁.waiting t = some x) : s₁.count < s.count ∧ s.entries[s₁.count]? = some x := by
  induction hr with
  | start => simp at hsuf
  | @next h s s' e hs he ih =>
    obtain ⟨u, a⟩ := e
    rcases cons_suffix_cons_iff.mp hsuf with ⟨hua, rfl⟩ | hsuf
    · obtain ⟨rfl, rfl⟩ := Prod.mk.inj hua
      obtain rfl := hs.det hr₁
      cases step_stepped he with
      | insert y hy =>
        obtain rfl : x = y := Option.some.inj (hw.symm.trans hy)
        refine ⟨Nat.lt_succ_self _, ?_⟩
        rw [inserted, Vector.getElem?_setIfInBounds_self]
        exact if_pos hn
    · have hle := step_count_le he
      obtain ⟨hlt, hentry⟩ := ih (hle.trans hn) hsuf
      refine ⟨hlt.trans_le hle, ?_⟩
      cases step_stepped he with
      | full y hy hc => exact hentry
      | test y hy hc => exact hentry
      | insert y hy =>
        rw [inserted, Vector.getElem?_setIfInBounds_ne hlt.ne']
        exact hentry

theorem sound_of_count_le {blank : α} {h : List (τ × TableAction α)} {s : Table τ α n}
    (hr : Run step (init blank) h s) (hn : s.count ≤ n) : Sound blank h s where
  count_le := hn
  kept t x h₁ s₁ hsuf hr₁ hw := by
    obtain ⟨hlt, hentry⟩ := run_kept hr hn hsuf hr₁ hw
    exact ⟨hlt.trans_le hn, hlt, hentry⟩
  apart t u h₁ h₂ s₁ s₂ hsuf hsuf' hr₁ hr₂ := by
    obtain ⟨h₃, rfl⟩ := hsuf'
    obtain ⟨s₃, he, hrest⟩ := hr₁.cut hr₂
    have hle := run_count_le hrest
    cases step_stepped he with
    | insert x hw => exact hle

end Table

/-- A system in whose runs a table is filled: `event` tells which of its events are
capacity tests and insertions, and `insert t` is the insertion of the thread `t`. -/
structure Backend {σ ε : Type} [DecidableEq τ] (step : σ → ε → Option σ) (init : σ)
    (table : σ → Table τ α n) (event : ε → Option (τ × TableAction α)) (insert : τ → ε)
    (blank : α) : Prop where
  table_init : table init = Table.init blank
  stays : ∀ h s e s', Run step init h s → step s e = some s' → event e = none →
    table s' = table s
  moves : ∀ h s e s' d, Run step init h s → step s e = some s' → event e = some d →
    (table s).step d = some (table s')
  event_insert : ∀ t, event (insert t) = some (t, .insert)
  inserts : ∀ h s t s₁, Run step init h s → (table s).step (t, .insert) = some s₁ →
    ∃ s', step s (insert t) = some s'

namespace Backend

open Table

variable {σ ε : Type} [DecidableEq τ] {step : σ → ε → Option σ} {init : σ}
  {table : σ → Table τ α n} {event : ε → Option (τ × TableAction α)} {insert : τ → ε} {blank : α}
  {h : List ε} {s : σ}

theorem run_table (B : Backend step init table event insert blank) (hr : Run step init h s) :
    Run Table.step (Table.init blank) (h.filterMap event) (table s) :=
  B.table_init ▸ hr.project table event B.stays B.moves

/-- What the waiting calls can do in the table they can do in the system. -/
theorem exists_run_inserts (B : Backend step init table event insert blank)
    (hr : Run step init h s) {k : List (τ × TableAction α)} {s₁ : Table τ α n}
    (hk : ∀ e ∈ k, e.2 = .insert) (hk₁ : Run Table.step (table s) k s₁) :
    ∃ s', Run step init (k.map (fun e ↦ insert e.1) ++ h) s' ∧ table s' = s₁ := by
  induction hk₁ with
  | start => exact ⟨s, hr, rfl⟩
  | @next k s₁ s₂ e hs he ih =>
    obtain ⟨t, a⟩ := e
    obtain ⟨rfl, hks⟩ := List.forall_mem_cons.mp hk
    obtain ⟨s', hr', rfl⟩ := ih hks
    obtain ⟨s'', he'⟩ := B.inserts _ s' t s₂ hr' he
    have hmove := B.moves _ s' (insert t) s'' (t, .insert) hr' he' (B.event_insert t)
    exact ⟨s'', hr'.next he', Option.some.inj (hmove.symm.trans he)⟩

theorem event_inserts (B : Backend step init table event insert blank) {k : List ε}
    (hk : ∀ e ∈ k, ∃ t, e = insert t) : ∀ e ∈ k.filterMap event, e.2 = .insert := by
  intro e he
  obtain ⟨e', hmem, hf⟩ := List.mem_filterMap.mp he
  obtain ⟨t, rfl⟩ := hk e' hmem
  rw [B.event_insert] at hf
  exact Option.some.inj hf ▸ rfl

theorem fits_iff_inserts (B : Backend step init table event insert blank)
    (hr : Run step init h s) : (table s).Fits ↔ ∀ k s', (∀ e ∈ k, ∃ t, e = insert t) →
      Run step init (k ++ h) s' → (table s').count ≤ n := by
  constructor
  · intro hf k s' hk hr'
    have htable := B.run_table hr'
    rw [List.filterMap_append] at htable
    exact (hf.inserts (B.event_inserts hk) (htable.rest (B.run_table hr))).count_le
  · intro hcount
    refine (Table.fits_iff_inserts (table s)).mpr fun k s₁ hk hk₁ ↦ ?_
    obtain ⟨s', hr', rfl⟩ := B.exists_run_inserts hr hk hk₁
    refine hcount _ s' (fun e he ↦ ?_) hr'
    obtain ⟨e', _, rfl⟩ := List.mem_map.mp he
    exact ⟨e'.1, rfl⟩

theorem count_le_of_suffix (B : Backend step init table event insert blank)
    (hr : Run step init h s) {h₁ : List ε} {s₁ : σ} (hsuf : h₁ <:+ h) (hr₁ : Run step init h₁ s₁) :
    (table s₁).count ≤ (table s).count := by
  obtain ⟨h₂, rfl⟩ := hsuf
  have htable := B.run_table hr
  rw [List.filterMap_append] at htable
  exact run_count_le (htable.rest (B.run_table hr₁))

/-- Every entry below the count has been inserted at some moment. -/
theorem exists_insert (B : Backend step init table event insert blank) (hr : Run step init h s)
    {p : ℕ} (hp : p < (table s).count) : ∃ e h₁ s₁ t, e :: h₁ <:+ h ∧
      event e = some (t, .insert) ∧ Run step init h₁ s₁ ∧ (table s₁).count = p := by
  induction hr with
  | start =>
    rw [B.table_init] at hp
    exact absurd hp (Nat.not_lt_zero p)
  | @next h s s' e hs he ih =>
    have hbefore (hlt : p < (table s).count) : ∃ e' h₁ s₁ t, e' :: h₁ <:+ e :: h ∧
        event e' = some (t, .insert) ∧ Run step init h₁ s₁ ∧ (table s₁).count = p := by
      obtain ⟨e', h₁, s₁, t, hsuf, hins⟩ := ih hlt
      exact ⟨e', h₁, s₁, t, hsuf.trans (List.suffix_cons e h), hins⟩
    cases hf : event e with
    | none =>
      rw [B.stays h s e s' hs he hf] at hp
      exact hbefore hp
    | some d =>
      obtain ⟨t, a⟩ := d
      have hmove := B.moves h s e s' (t, a) hs he hf
      generalize htable : table s' = table' at hmove hp
      cases step_stepped hmove with
      | full x hw hc => exact hbefore hp
      | test x hw hc => exact hbefore hp
      | insert x hw =>
        rcases Nat.lt_succ_iff_lt_or_eq.mp hp with hlt | heq
        · exact hbefore hlt
        · exact ⟨e, h, s, t, List.suffix_rfl, hf, hs, heq.symm⟩

/-- As long as the table has not been overrun an insertion can be read back. -/
theorem insert_kept (B : Backend step init table event insert blank) (hr : Run step init h s)
    (hn : (table s).count ≤ n) {e : ε} {h₁ : List ε} {s₁ : σ} {t : τ} {x : α}
    (hsuf : e :: h₁ <:+ h) (hr₁ : Run step init h₁ s₁) (hf : event e = some (t, .insert))
    (hw : (table s₁).waiting t = some x) :
    (table s₁).count < (table s).count ∧ (table s).entries[(table s₁).count]? = some x := by
  have hevents := hsuf.filterMap event
  rw [List.filterMap_cons_some hf] at hevents
  exact run_kept (B.run_table hr) hn hevents (B.run_table hr₁) hw

/-- A run is sound at all its moments as long as every capacity test leaves room for
the waiting calls, and only then do these calls come to a sound end in any case. -/
theorem bounded_iff (B : Backend step init table event insert blank) (hr : Run step init h s) :
    (Reserved n blank (h.filterMap event) → Sound blank (h.filterMap event) (table s) ∧
      ∀ h₁ s₁, h₁ <:+ h → Run step init h₁ s₁ → (table s₁).count ≤ n) ∧
    ((∀ k s', (∀ e ∈ k, ∃ t, e = insert t) → Run step init (k ++ h) s' → (table s').count ≤ n) ↔
      Reserved n blank (h.filterMap event)) := by
  have hfits := fits_iff_reserved (B.run_table hr)
  constructor
  · intro hres
    have hle := (hfits.mpr hres).count_le
    refine ⟨sound_of_count_le (B.run_table hr) hle, fun h₁ s₁ hsuf hr₁ ↦ ?_⟩
    exact (B.count_le_of_suffix hr hsuf hr₁).trans hle
  · rw [← B.fits_iff_inserts hr]
    exact hfits

end Backend

end BmsFirmware.Lib.Registration
