import BmsFirmware.Lib.History
import Mathlib.Data.List.Nodup
import Mathlib.Logic.Function.Basic
import Mathlib.Order.Nat

namespace BmsFirmware.Lib.CallStack

open History

variable {τ : Type}

/-- The calls in progress, numbered in the order in which they start. Each thread
has its calls nested, the innermost first. -/
structure Calls (τ : Type) where
  started : ℕ
  active : τ → List ℕ

inductive CallAction
  | call
  | finish

namespace Calls

def init : Calls τ where
  started := 0
  active := fun _ ↦ []

structure Distinct (s : Calls τ) : Prop where
  lt_started : ∀ t, ∀ n ∈ s.active t, n < s.started
  nodup : ∀ t, (s.active t).Nodup
  apart : ∀ t u n, t ≠ u → n ∈ s.active t → n ∉ s.active u

def Finished (s : Calls τ) (n : ℕ) : Prop := n < s.started ∧ ∀ t, n ∉ s.active t

theorem init_distinct : Distinct (init : Calls τ) where
  lt_started := by simp [init]
  nodup := by simp [init]
  apart := by simp [init]

variable [DecidableEq τ]

def step (s : Calls τ) (e : τ × CallAction) : Option (Calls τ) :=
  match e.2, s.active e.1 with
  | .call, l => some ⟨s.started + 1, Function.update s.active e.1 (s.started :: l)⟩
  | .finish, _ :: l => some ⟨s.started, Function.update s.active e.1 l⟩
  | .finish, [] => none

inductive Stepped (s : Calls τ) (t : τ) : CallAction → Calls τ → Prop
  | call : Stepped s t .call
      ⟨s.started + 1, Function.update s.active t (s.started :: s.active t)⟩
  | finish (n : ℕ) (l : List ℕ) (hl : s.active t = n :: l) :
      Stepped s t .finish ⟨s.started, Function.update s.active t l⟩

theorem step_stepped {s s' : Calls τ} {t : τ} {a : CallAction} (h : s.step (t, a) = some s') :
    Stepped s t a s' := by
  cases a with
  | call => exact Option.some.inj h ▸ .call
  | finish =>
    match hl : s.active t with
    | [] => simp [step, hl] at h
    | n :: l =>
      simp only [step, hl, Option.some.injEq] at h
      exact h ▸ .finish n l hl

theorem mem_update {s : Calls τ} {t u : τ} {l : List ℕ} {n : ℕ}
    (h : n ∈ Function.update s.active t l u) : u = t ∧ n ∈ l ∨ u ≠ t ∧ n ∈ s.active u := by
  by_cases hu : u = t
  · subst hu
    rw [Function.update_self] at h
    exact .inl ⟨rfl, h⟩
  · rw [Function.update_of_ne hu] at h
    exact .inr ⟨hu, h⟩

theorem Distinct.call {s : Calls τ} (h : Distinct s) (t : τ) :
    Distinct ⟨s.started + 1, Function.update s.active t (s.started :: s.active t)⟩ where
  lt_started u n hn := by
    rcases mem_update hn with ⟨_, hmem⟩ | ⟨_, hmem⟩
    · rcases List.mem_cons.mp hmem with rfl | hmem
      · exact Nat.lt_succ_self _
      · exact Nat.lt_succ_of_lt (h.lt_started t n hmem)
    · exact Nat.lt_succ_of_lt (h.lt_started u n hmem)
  nodup u := by
    by_cases hu : u = t
    · subst hu
      dsimp only
      rw [Function.update_self]
      exact List.nodup_cons.mpr ⟨fun hn ↦ (h.lt_started u _ hn).false, h.nodup u⟩
    · dsimp only
      rw [Function.update_of_ne hu]
      exact h.nodup u
  apart u v n huv hn hn' := by
    rcases mem_update hn with ⟨hu, hmem⟩ | ⟨_, hmem⟩ <;>
      rcases mem_update hn' with ⟨hv, hmem'⟩ | ⟨_, hmem'⟩
    · exact huv (hu.trans hv.symm)
    · rcases List.mem_cons.mp hmem with rfl | hmem
      · exact (h.lt_started v _ hmem').false
      · exact h.apart t v n (hu ▸ huv) hmem hmem'
    · rcases List.mem_cons.mp hmem' with rfl | hmem'
      · exact (h.lt_started u _ hmem).false
      · exact h.apart u t n (hv ▸ huv) hmem hmem'
    · exact h.apart u v n huv hmem hmem'

theorem Distinct.finish {s : Calls τ} (h : Distinct s) {t : τ} {n : ℕ} {l : List ℕ}
    (hl : s.active t = n :: l) : Distinct ⟨s.started, Function.update s.active t l⟩ := by
  have hold {u : τ} {m : ℕ} (hm : m ∈ Function.update s.active t l u) : m ∈ s.active u := by
    rcases mem_update hm with ⟨rfl, hmem⟩ | ⟨_, hmem⟩
    · exact hl ▸ List.mem_cons_of_mem n hmem
    · exact hmem
  refine ⟨fun u m hm ↦ h.lt_started u m (hold hm), fun u ↦ ?_,
    fun u v m huv hm hm' ↦ h.apart u v m huv (hold hm) (hold hm')⟩
  by_cases hu : u = t
  · subst hu
    dsimp only
    rw [Function.update_self]
    exact (List.nodup_cons.mp (hl ▸ h.nodup u)).2
  · dsimp only
    rw [Function.update_of_ne hu]
    exact h.nodup u

theorem Distinct.step {s s' : Calls τ} {e : τ × CallAction} (h : Distinct s)
    (he : s.step e = some s') : Distinct s' := by
  obtain ⟨t, a⟩ := e
  cases step_stepped he with
  | call => exact h.call t
  | finish n l hl => exact h.finish hl

theorem run_distinct {h : List (τ × CallAction)} {s : Calls τ} (hr : Run step init h s) :
    Distinct s :=
  hr.invariant init_distinct fun _ _ _ hs he ↦ hs.step he

theorem Finished.step {s s' : Calls τ} {e : τ × CallAction} {n : ℕ} (h : s.Finished n)
    (he : s.step e = some s') : s'.Finished n := by
  obtain ⟨t, a⟩ := e
  obtain ⟨hlt, hout⟩ := h
  cases step_stepped he with
  | call =>
    refine ⟨Nat.lt_succ_of_lt hlt, fun u hn ↦ ?_⟩
    rcases mem_update hn with ⟨_, hmem⟩ | ⟨_, hmem⟩
    · rcases List.mem_cons.mp hmem with rfl | hmem
      · exact hlt.false
      · exact hout t hmem
    · exact hout u hmem
  | finish m l hl =>
    refine ⟨hlt, fun u hn ↦ ?_⟩
    rcases mem_update hn with ⟨_, hmem⟩ | ⟨_, hmem⟩
    · exact hout t (hl ▸ List.mem_cons_of_mem m hmem)
    · exact hout u hmem

/-- A call is in progress as long as its thread is above the calls that were in
progress when it started. -/
theorem step_above {s s' : Calls τ} (hd : Distinct s) {e : τ × CallAction} {t : τ} {n : ℕ}
    {below : List ℕ} (h : (∃ l, s.active t = l ++ n :: below) ∨ s.Finished n)
    (he : s.step e = some s') : (∃ l, s'.active t = l ++ n :: below) ∨ s'.Finished n := by
  rcases h with ⟨l, hl⟩ | hfin
  · obtain ⟨u, a⟩ := e
    have hmem : n ∈ s.active t := hl ▸ by simp
    cases step_stepped he with
    | call =>
      left
      by_cases hut : t = u
      · subst hut
        exact ⟨s.started :: l, by simp [hl]⟩
      · exact ⟨l, by simpa [hut] using hl⟩
    | finish m l' hl' =>
      by_cases hut : t = u
      · subst hut
        cases l with
        | nil =>
          obtain ⟨rfl, rfl⟩ := List.cons.inj (hl'.symm.trans hl)
          right
          refine ⟨hd.lt_started t m hmem, fun v hv ↦ ?_⟩
          rcases mem_update hv with ⟨_, hv'⟩ | ⟨hne, hv'⟩
          · exact (List.nodup_cons.mp (hl' ▸ hd.nodup t)).1 hv'
          · exact hd.apart t v m hne.symm hmem hv'
        | cons k l =>
          obtain ⟨rfl, rfl⟩ := List.cons.inj (hl'.symm.trans hl)
          exact .inl ⟨l, by simp⟩
      · exact .inl ⟨l, by simpa [hut] using hl⟩
  · exact .inr (hfin.step he)

/-- Of two calls that a thread makes at the same depth, the first is over when the
second starts. -/
theorem finished_of_depth {h₁ h₂ : List (τ × CallAction)} {s₁ s₂ : Calls τ} {t : τ}
    (hsuf : (t, .call) :: h₁ <:+ h₂) (hr₁ : Run step init h₁ s₁) (hr₂ : Run step init h₂ s₂)
    (hdepth : (s₂.active t).length ≤ (s₁.active t).length) : s₂.Finished s₁.started := by
  obtain ⟨k, rfl⟩ := hsuf
  obtain ⟨s, he, hrest⟩ := hr₂.cut hr₁
  have hd : Distinct s := run_distinct (hr₁.next he)
  have hs : s.active t = s₁.started :: s₁.active t := by
    cases step_stepped he with
    | call => exact Function.update_self ..
  have habove := hrest.invariant
    (I := fun s ↦ Distinct s ∧
      ((∃ l, s.active t = l ++ s₁.started :: s₁.active t) ∨ s.Finished s₁.started))
    ⟨hd, .inl ⟨[], hs⟩⟩ fun s e s' hI he ↦ ⟨hI.1.step he, step_above hI.1 hI.2 he⟩
  rcases habove.2 with ⟨l, hl⟩ | hfin
  · rw [hl, List.length_append, List.length_cons] at hdepth
    omega
  · exact hfin

end Calls

end BmsFirmware.Lib.CallStack
