import BmsFirmware.SimulatorRun

namespace BmsFirmware.Firmware

open Config Lib.Tick Lib.Threads Lib.History

structure Line where
  timeMs : ℕ
  level : LogLevel
  text : String
deriving DecidableEq, Repr

def Entry.lineOf? (t : Thread) : Entry → Option Line
  | .line u timeMs level text => if u = t then some ⟨timeMs, level, text⟩ else none
  | .final _ _ => none

def linesOf (t : Thread) (entries : List Entry) : List Line := entries.filterMap (Entry.lineOf? t)

def textsOf (t : Thread) (entries : List Entry) : List (LogLevel × String) :=
  (linesOf t entries).map fun l ↦ (l.level, l.text)

def lastState : List (BmsState × UInt16) → BmsState
  | [] => .normal
  | x :: _ => x.1

/-- The findings of the fault task that differ from the state before. -/
def changes : List (BmsState × UInt16) → List (BmsState × UInt16)
  | [] => []
  | x :: seen => if x.1 = lastState seen then changes seen else x :: changes seen

/-- A report of the watchdog task, which is a section of a single statement. -/
def IsReport (x : Commit sig .ctx) : Bool := decide (x.thread = .watchdog) && x.alone

def reports (commits : List (Commit sig .ctx)) : ℕ := commits.countP IsReport

/-- State and faults of the manager right after each of its evaluations by the fault task. -/
def findings (commits : List (Commit sig .ctx)) : List (BmsState × UInt16) :=
  (iterations .fault commits).map fun ctx ↦ (ctx.faultMgr.state, ctx.faultMgr.activeFaults)

section Entries

variable (t : Thread) {u : Thread} (timeMs : ℕ) (level : LogLevel) (text : String)
  (entries : List Entry)

@[simp] theorem linesOf_line : linesOf t (.line t timeMs level text :: entries) =
    ⟨timeMs, level, text⟩ :: linesOf t entries :=
  List.filterMap_cons_some (if_pos rfl)

variable {t} in
theorem linesOf_line_ne (h : u ≠ t) :
    linesOf t (.line u timeMs level text :: entries) = linesOf t entries :=
  List.filterMap_cons_none (if_neg h)

@[simp] theorem linesOf_final (status : BmsStatus) (faults : UInt16) :
    linesOf t (.final status faults :: entries) = linesOf t entries :=
  List.filterMap_cons_none rfl

@[simp] theorem textsOf_line :
    textsOf t (.line t timeMs level text :: entries) = (level, text) :: textsOf t entries := by
  rw [textsOf, linesOf_line]
  rfl

variable {t} in
theorem textsOf_line_ne (h : u ≠ t) :
    textsOf t (.line u timeMs level text :: entries) = textsOf t entries := by
  rw [textsOf, linesOf_line_ne _ _ _ _ h, textsOf]

@[simp] theorem textsOf_final (status : BmsStatus) (faults : UInt16) :
    textsOf t (.final status faults :: entries) = textsOf t entries := by
  rw [textsOf, linesOf_final, textsOf]

end Entries

def opening (t : Thread) : Stage → List (LogLevel × String)
  | .fresh => []
  | _ => [(.info, t.greeting)]

def closing (t : Thread) : Stage → List (LogLevel × String)
  | .exited => if t = .main then [] else [(.info, taskExiting)]
  | _ => []

namespace Simulator

variable {startMs : ℕ} {scenario : CellScenario} {k : List SimEvent} {a a' : Simulator}

def loggedChanges (a : Simulator) : List (BmsState × UInt16) :=
  if a.unlogged.isSome then (changes a.seen).tail else changes a.seen

def remarks (a : Simulator) : Thread → List (LogLevel × String)
  | .fault => a.loggedChanges.map fun x ↦ (.warn, Firmware.stateChange x.1 x.2)
  | .watchdog => List.replicate (reports a.commits + a.warned.toNat) (.error, staleHeartbeat)
  | _ => []

structure Logged (a : Simulator) : Prop where
  seen : a.seen = findings a.commits
  quiet : a.sys.faultNow ≠ none → a.unlogged = none
  logged : a.logged = lastState (if a.unlogged.isSome then a.seen.tail else a.seen)

theorem unlogged_some {x : BmsState × UInt16} (h : a.unlogged = some x) :
    ∃ rest, a.seen = x :: rest ∧ x.1 ≠ a.logged := by
  obtain ⟨hhead, hne⟩ := Option.filter_eq_some_iff.mp h
  obtain ⟨rest, hrest⟩ := List.head?_eq_some_iff.mp hhead
  exact ⟨rest, hrest, of_decide_eq_true hne⟩

theorem unlogged_congr (hseen : a'.seen = a.seen) (hlogged : a'.logged = a.logged) :
    a'.unlogged = a.unlogged := by
  rw [unlogged, unlogged, hseen, hlogged]

theorem Logged.congr (hl : Logged a) (hf : findings a'.commits = findings a.commits)
    (hseen : a'.seen = a.seen) (hlogged : a'.logged = a.logged)
    (hnow : a'.sys.faultNow ≠ none → a.unlogged = none) : Logged a' := by
  have hu := unlogged_congr hseen hlogged
  refine ⟨by rw [hseen, hf, hl.seen], fun hn ↦ hu.trans (hnow hn), ?_⟩
  rw [hlogged, hu, hseen, hl.logged]

theorem unlogged_cons {x : BmsState × UInt16} {seen : List (BmsState × UInt16)}
    (h : a.seen = x :: seen) : a.unlogged = if x.1 = a.logged then none else some x := by
  rw [unlogged, h, List.head?_cons, Option.filter_some]
  split_ifs <;> simp_all

variable (a') in
/-- An evaluation by the fault task, which has nothing left to log at that time. -/
theorem Logged.section {t : ℕ} {sys : System} (hl : Logged a)
    (hs : a.sys.step ⟨t, .faultSection⟩ = some sys)
    (hcommits : a'.commits = ⟨.fault, false, sys.ctx⟩ :: a.commits)
    (hseen : a'.seen = (sys.ctx.faultMgr.state, sys.ctx.faultMgr.activeFaults) :: a.seen)
    (hlogged : a'.logged = a.logged) (hsys : a'.sys = sys) :
    Logged a' ∧ a'.loggedChanges = a.loggedChanges := by
  obtain ⟨_, hst⟩ := System.step_stepped hs
  obtain ⟨now, hnow, hnone'⟩ : ∃ now, a.sys.faultNow = some now ∧ sys.faultNow = none := by
    cases hst with
    | faultSection now hn => exact ⟨now, hn, rfl⟩
  have hnone : a.unlogged = none := hl.quiet (by simp [hnow])
  have hlast : a.logged = lastState a.seen := by
    rw [hl.logged, hnone]
    rfl
  have hunlogged := unlogged_cons hseen
  rw [hlogged, hlast] at hunlogged
  have hchanges : a.loggedChanges = changes a.seen := by
    rw [loggedChanges, hnone]
    rfl
  have hfind : a'.seen = findings a'.commits := by
    rw [hseen, hcommits, hl.seen]
    rfl
  have hquiet (hn : a'.sys.faultNow ≠ none) : a'.unlogged = none :=
    absurd (hsys ▸ hnone') hn
  split_ifs at hunlogged with hsame
  · refine ⟨⟨hfind, hquiet, ?_⟩, ?_⟩
    · rw [hlogged, hlast, hunlogged, hseen]
      exact hsame.symm
    · rw [loggedChanges, hunlogged, hseen, hchanges]
      exact if_pos hsame
  · refine ⟨⟨hfind, hquiet, ?_⟩, ?_⟩
    · rw [hlogged, hlast, hunlogged, hseen]
      rfl
    · rw [loggedChanges, hunlogged, hseen, hchanges]
      exact congrArg List.tail (if_neg hsame)

variable (a') in
/-- The line of the fault task catches up with what it has seen. -/
theorem Logged.stateChange {x : BmsState × UInt16} (hl : Logged a) (hx : a.unlogged = some x)
    (hcommits : a'.commits = a.commits) (hseen : a'.seen = a.seen) (hlogged : a'.logged = x.1) :
    Logged a' ∧ a'.loggedChanges = x :: a.loggedChanges := by
  obtain ⟨rest, hrest, hne⟩ := unlogged_some hx
  have hunlogged : a'.unlogged = none := by
    rw [unlogged_cons (hseen.trans hrest), if_pos hlogged.symm]
  have hlast : a.logged = lastState rest := by
    rw [hl.logged, hx, hrest]
    rfl
  have hchange : changes a.seen = x :: changes rest := by
    rw [hrest]
    exact if_neg (hlast ▸ hne)
  refine ⟨⟨hcommits ▸ hseen.trans hl.seen, fun _ ↦ hunlogged, ?_⟩, ?_⟩
  · rw [hlogged, hunlogged, hseen, hrest]
    rfl
  · rw [loggedChanges, loggedChanges, hunlogged, hx, hseen, hchange]
    rfl

structure Journal (a : Simulator) : Prop where
  logged : Logged a
  texts : ∀ t, textsOf t a.entries =
    closing t (a.progress t).stage ++ a.remarks t ++ opening t (a.progress t).stage
  fresh : ∀ t, (a.progress t).stage = .fresh → a.remarks t = []

theorem remarks_congr (hchanges : a'.loggedChanges = a.loggedChanges)
    (hreports : reports a'.commits + a'.warned.toNat = reports a.commits + a.warned.toNat)
    (t : Thread) : a'.remarks t = a.remarks t := by
  cases t <;> simp only [remarks, hchanges, hreports]

theorem loggedChanges_congr (hseen : a'.seen = a.seen) (hlogged : a'.logged = a.logged) :
    a'.loggedChanges = a.loggedChanges := by
  rw [loggedChanges, loggedChanges, unlogged_congr hseen hlogged, hseen]

theorem Journal.congr (hj : Journal a) (hl : Logged a') (hentries : a'.entries = a.entries)
    (hstage : ∀ t, (a'.progress t).stage = (a.progress t).stage)
    (hremarks : ∀ t, a'.remarks t = a.remarks t) : Journal a' := by
  refine ⟨hl, fun t ↦ ?_, fun t ht ↦ ?_⟩
  · rw [hentries, hstage, hremarks, hj.texts]
  · rw [hremarks]
    exact hj.fresh t (hstage t ▸ ht)

theorem Logged.others {e : Event} {sys : System} (hl : Logged a) (hp : a.permits e.action)
    (hs : a.sys.step e = some sys) (he : e.action ≠ .faultSection)
    (hcommits : a'.commits = committed e.action sys.ctx a.commits) (hseen : a'.seen = a.seen)
    (hlogged : a'.logged = a.logged) (hsys : a'.sys = sys) : Logged a' := by
  obtain ⟨t, x⟩ := e
  have hf : findings a'.commits = findings a.commits := by
    rw [hcommits]
    cases x with
    | faultSection => exact absurd rfl he
    | _ => rfl
  refine hl.congr hf hseen hlogged fun hn ↦ ?_
  rw [hsys] at hn
  obtain ⟨_, hst⟩ := System.step_stepped hs
  cases hst with
  | faultClock => exact Option.isNone_iff_eq_none.mp hp
  | faultSection => exact absurd rfl he
  | _ => exact hl.quiet hn

theorem Journal.sys {e : Event} {sys : System} (hj : Journal a) (hp : a.permits e.action)
    (hs : a.sys.step e = some sys) :
    Journal (((a.setSys sys).notes e.action).setDue (owner e.action)
      (e.timeMs + (owner e.action).periodMs.toNat)) := by
  have hstage (t : Thread) : ((((a.setSys sys).notes e.action).setDue (owner e.action)
      (e.timeMs + (owner e.action).periodMs.toNat)).progress t).stage = (a.progress t).stage := by
    rw [setDue_stage, notes_progress]
    rfl
  obtain ⟨t, x⟩ := e
  cases x with
  | faultSection =>
    obtain ⟨hl, hc⟩ := hj.logged.section (((a.setSys sys).notes .faultSection).setDue .fault
      (t + Thread.fault.periodMs.toNat)) hs rfl rfl rfl rfl
    exact hj.congr hl rfl hstage (remarks_congr hc rfl)
  | watchdogReport =>
    have hreports : reports (⟨.watchdog, true, sys.ctx⟩ :: a.commits) =
        reports a.commits + a.warned.toNat := by
      rw [show a.warned = true from hp]
      exact List.countP_cons_of_pos rfl
    exact hj.congr (hj.logged.others hp hs nofun rfl rfl rfl rfl) rfl hstage
      (remarks_congr (loggedChanges_congr rfl rfl) hreports)
  | _ =>
    exact hj.congr (hj.logged.others hp hs nofun rfl rfl rfl rfl) rfl hstage
      (remarks_congr (loggedChanges_congr rfl rfl) rfl)

/-- A thread prints its next line. -/
theorem Journal.line {t : Thread} {timeMs : ℕ} {level : LogLevel} {text : String}
    {x y : Stage} (hj : Journal a) (hl : Logged a')
    (hentries : a'.entries = .line t timeMs level text :: a.entries)
    (hx : (a.progress t).stage = x) (hy : (a'.progress t).stage = y)
    (hstage : ∀ u, u ≠ t → a'.progress u = a.progress u)
    (hremarks : ∀ u, u ≠ t → a'.remarks u = a.remarks u)
    (htexts : (level, text) :: (closing t x ++ a.remarks t ++ opening t x) =
      closing t y ++ a'.remarks t ++ opening t y)
    (hfresh : y ≠ .fresh) : Journal a' := by
  subst hx hy
  refine ⟨hl, fun u ↦ ?_, fun u hu ↦ ?_⟩
  · by_cases hut : u = t
    · subst hut
      rw [hentries, textsOf_line, hj.texts, htexts]
    · rw [hentries, textsOf_line_ne _ _ _ _ (Ne.symm hut), hstage u hut, hremarks u hut, hj.texts]
  · have hut : u ≠ t := by
      rintro rfl
      exact hfresh hu
    rw [hremarks u hut]
    exact hj.fresh u (hstage u hut ▸ hu)

/-- A thread comes to its next stage without a line. -/
theorem Journal.turn {t : Thread} {x y : Stage} (hj : Journal a)
    (hl : Logged a') (htexts : ∀ u, textsOf u a'.entries = textsOf u a.entries)
    (hx : (a.progress t).stage = x) (hy : (a'.progress t).stage = y)
    (hstage : ∀ u, u ≠ t → a'.progress u = a.progress u)
    (hremarks : ∀ u, a'.remarks u = a.remarks u) (hclosing : closing t x = closing t y)
    (hopening : opening t x = opening t y) (hfresh : y ≠ .fresh) : Journal a' := by
  subst hx hy
  refine ⟨hl, fun u ↦ ?_, fun u hu ↦ ?_⟩
  · by_cases hut : u = t
    · subst hut
      rw [htexts, hremarks, hj.texts, hclosing, hopening]
    · rw [htexts, hremarks, hstage u hut, hj.texts]
  · have hut : u ≠ t := by
      rintro rfl
      exact hfresh hu
    rw [hremarks u]
    exact hj.fresh u (hstage u hut ▸ hu)

theorem Journal.step {d : SimEvent} (hj : Journal a) (hd : a.step d = some a') : Journal a' := by
  have hcongr (hcommits : a'.commits = a.commits) (hseen : a'.seen = a.seen)
      (hlogged : a'.logged = a.logged) (hsys : a'.sys = a.sys) : Logged a' :=
    hj.logged.congr (hcommits ▸ rfl) hseen hlogged fun hn ↦ hj.logged.quiet (hsys ▸ hn)
  cases step_stepped hd with
  | sys e sys hs hp hdue h => exact hj.sys hp h
  | greet t hs =>
    refine hj.line (hcongr rfl rfl rfl rfl) rfl hs (setStage_stage ..)
      (fun u hu ↦ setStage_ne _ _ hu) (fun _ _ ↦ rfl) ?_ nofun
    change [_] ++ (_ ++ a.remarks t ++ _) = _ ++ a.remarks t ++ _
    rw [hj.fresh t hs]
    rfl
  | stateChange x hs hx =>
    obtain ⟨hl, hc⟩ := hj.logged.stateChange
      { a.print .fault .warn (Firmware.stateChange x.1 x.2) with logged := x.1 } hx rfl rfl rfl
    refine hj.line hl rfl hs hs (fun _ _ ↦ rfl) (fun u hu ↦ ?_) ?_ nofun
    · cases u <;> first | rfl | exact absurd rfl hu
    · simp only [remarks, hc]
      rfl
  | stale now hnow hs hw =>
    refine hj.line (hcongr rfl rfl rfl rfl) rfl hs hs (fun _ _ ↦ rfl) (fun u hu ↦ ?_) ?_ nofun
    · cases u <;> first | rfl | exact absurd rfl hu
    · simp only [remarks, hw]
      rfl
  | exit t ht hs =>
    refine hj.line (hcongr rfl rfl rfl rfl) rfl hs (setStage_stage ..)
      (fun u hu ↦ setStage_ne _ _ hu) (fun _ _ ↦ rfl) ?_ nofun
    change _ = closing t .exited ++ a.remarks t ++ _
    rw [closing, if_neg ht]
    rfl
  | request hs =>
    exact hj.turn (hcongr rfl rfl rfl rfl) (fun _ ↦ rfl) hs (setStage_stage a .main .leaving)
      (fun u hu ↦ setStage_ne _ _ hu) (fun _ ↦ rfl) rfl rfl nofun
  | leave t ht hs =>
    exact hj.turn (hcongr rfl rfl rfl rfl) (fun _ ↦ rfl) hs (setStage_stage a t .leaving)
      (fun u hu ↦ setStage_ne _ _ hu) (fun _ ↦ rfl) rfl rfl nofun
  | finalStatus hs =>
    refine hj.turn (hcongr rfl rfl rfl rfl) (fun u ↦ ?_) hs (setStage_stage a .main .exited)
      (fun u hu ↦ setStage_ne _ _ hu) (fun _ ↦ rfl) rfl rfl nofun
    rw [textsOf_final]
  | read t nowMs =>
    exact hj.congr (hcongr rfl rfl rfl rfl) rfl (fun _ ↦ setRead_stage ..) fun _ ↦ rfl
  | cellStep => exact hj.congr (hcongr rfl rfl rfl rfl) rfl (fun _ ↦ rfl) fun _ ↦ rfl
  | join => exact hj.congr (hcongr rfl rfl rfl rfl) rfl (fun _ ↦ rfl) fun _ ↦ rfl

theorem run_journal (hr : Run step (start startMs scenario) k a) : Journal a := by
  induction hr with
  | start =>
    refine ⟨⟨rfl, fun _ ↦ rfl, rfl⟩, fun t ↦ ?_, fun t _ ↦ ?_⟩
    · cases t <;> rfl
    · cases t <;> rfl
  | next hr hd ih => exact ih.step hd

structure Dated (startMs : ℕ) (a : Simulator) (t : Thread) : Prop where
  start : startMs ≤ (a.progress t).readMs
  bounds : ∀ l ∈ linesOf t a.entries, startMs ≤ l.timeMs ∧ l.timeMs ≤ (a.progress t).readMs
  sorted : ((linesOf t a.entries).map (·.timeMs)).IsChain fun later earlier ↦ earlier ≤ later

theorem Dated.congr {t : Thread} (hd : Dated startMs a t)
    (hlines : linesOf t a'.entries = linesOf t a.entries)
    (hread : (a.progress t).readMs ≤ (a'.progress t).readMs) : Dated startMs a' t := by
  obtain ⟨hstart, hbounds, hsorted⟩ := hd
  rw [← hlines] at hbounds hsorted
  exact ⟨hstart.trans hread, fun l hl ↦ ⟨(hbounds l hl).1, (hbounds l hl).2.trans hread⟩, hsorted⟩

theorem Dated.print {t u : Thread} {level : LogLevel} {text : String} (hd : Dated startMs a t)
    (hentries : a'.entries = .line u (a.progress u).readMs level text :: a.entries)
    (hread : (a'.progress t).readMs = (a.progress t).readMs) : Dated startMs a' t := by
  by_cases hu : u = t
  · subst hu
    have hlines : linesOf u a'.entries =
        ⟨(a.progress u).readMs, level, text⟩ :: linesOf u a.entries := by
      rw [hentries, linesOf_line]
    refine ⟨hread ▸ hd.start, ?_, ?_⟩
    · rw [hlines, hread, List.forall_mem_cons]
      exact ⟨⟨hd.start, le_rfl⟩, hd.bounds⟩
    · rw [hlines, List.map_cons, List.isChain_cons]
      refine ⟨fun n hn ↦ ?_, hd.sorted⟩
      obtain ⟨l, hl, rfl⟩ := List.mem_map.mp (List.mem_of_mem_head? hn)
      exact (hd.bounds l hl).2
  · exact hd.congr (by rw [hentries, linesOf_line_ne _ _ _ _ hu]) hread.ge

theorem setRead_readMs_le {t u : Thread} {nowMs : ℕ} (hle : (a.progress u).readMs ≤ nowMs) :
    (a.progress t).readMs ≤ ((a.setRead u nowMs).progress t).readMs := by
  by_cases ht : t = u
  · subst ht
    rwa [setRead_self]
  · rw [setRead_ne _ _ ht]

theorem run_dated (t : Thread) (hr : Run step (start startMs scenario) k a) :
    Dated startMs a t := by
  refine hr.invariant (I := fun a ↦ Dated startMs a t) ⟨le_rfl, by simp [start, linesOf],
    by simp [start, linesOf]⟩ fun a d a' hdated hd ↦ ?_
  cases step_stepped hd with
  | sys e sys =>
    refine hdated.congr (congrArg (linesOf t) (notes_entries ..)) ?_
    rw [setDue_readMs, notes_progress]
    exact le_rfl
  | greet u => exact hdated.print rfl (setStage_readMs ..)
  | exit u => exact hdated.print rfl (setStage_readMs ..)
  | stateChange => exact hdated.print rfl rfl
  | stale => exact hdated.print rfl rfl
  | finalStatus => exact hdated.congr (linesOf_final ..) (setStage_readMs ..).ge
  | read u nowMs hle => exact hdated.congr rfl (setRead_readMs_le hle)
  | request => exact hdated.congr rfl (setStage_readMs ..).ge
  | leave => exact hdated.congr rfl (setStage_readMs ..).ge
  | _ => exact hdated.congr rfl le_rfl

def Announced (startMs : ℕ) (entries : List Entry) : Prop :=
  ∃ n, startMs + simDurationMs.toNat ≤ n ∧ .line .main n .info Thread.main.greeting ∈ entries

theorem Announced.mono {es es' : List Entry} (h : Announced startMs es) (hsub : es ⊆ es') :
    Announced startMs es' := by
  obtain ⟨n, hn, hmem⟩ := h
  exact ⟨n, hn, hsub hmem⟩

/-- No task leaves before `main` has asked for it. -/
structure Orderly (startMs : ℕ) (a : Simulator) : Prop where
  announced : (a.progress .main).stage ≠ .fresh → Announced startMs a.entries
  ended : a.ended → (a.progress .main).stage ≠ .fresh
  left : ∀ t, t ≠ .main → (a.progress t).stage = .leaving ∨ (a.progress t).stage = .exited →
    a.ended
  exits : ∀ x es, x :: es <:+ a.entries →
    ∀ t n, x = .line t n .info taskExiting → Announced startMs es

theorem Orderly.congr (ho : Orderly startMs a)
    (hstage : ∀ t, (a'.progress t).stage = (a.progress t).stage) (hended : a'.ended = a.ended)
    (hentries : a'.entries = a.entries) : Orderly startMs a' := by
  refine ⟨?_, ?_, ?_, hentries ▸ ho.exits⟩
  · rw [hstage, hentries]
    exact ho.announced
  · rw [hstage, hended]
    exact ho.ended
  · intro t
    rw [hstage, hended]
    exact ho.left t

/-- An entry that is not the last line of a task. -/
theorem Orderly.entry {x : Entry} (ho : Orderly startMs a)
    (hstage : ∀ t, (a'.progress t).stage = (a.progress t).stage) (hended : a'.ended = a.ended)
    (hentries : a'.entries = x :: a.entries) (hx : ∀ t n, x ≠ .line t n .info taskExiting) :
    Orderly startMs a' := by
  refine ⟨?_, ?_, ?_, ?_⟩
  · rw [hstage, hentries]
    exact fun hs ↦ (ho.announced hs).mono (List.subset_cons_self ..)
  · rw [hstage, hended]
    exact ho.ended
  · intro t
    rw [hstage, hended]
    exact ho.left t
  · rw [hentries, forall_moments_cons]
    exact ⟨fun t n hn ↦ absurd hn (hx t n), ho.exits⟩

theorem greeting_ne_taskExiting (t : Thread) : t.greeting ≠ taskExiting := by
  cases t <;> decide +kernel

theorem Orderly.greet {t : Thread} (ho : Orderly startMs a) (hs : (a.progress t).stage = .fresh)
    (hdue : t = .main → startMs + simDurationMs.toNat ≤ (a.progress t).readMs) :
    Orderly startMs ((a.print t .info t.greeting).setStage t .running) := by
  have hne (u : Thread) (hu : u ≠ t) : ((a.print t .info t.greeting).setStage t .running).progress u
      = a.progress u := setStage_ne _ _ hu
  have hentries : ((a.print t .info t.greeting).setStage t .running).entries =
      .line t (a.progress t).readMs .info t.greeting :: a.entries := rfl
  refine ⟨fun hmain ↦ ?_, fun hended ↦ ?_, fun u hu hleft ↦ ?_, ?_⟩
  · by_cases ht : Thread.main = t
    · subst ht
      exact ⟨_, hdue rfl, List.mem_cons_self⟩
    · rw [hne _ ht] at hmain
      exact (ho.announced hmain).mono (List.subset_cons_self ..)
  · by_cases ht : Thread.main = t
    · subst ht
      exact absurd hs (ho.ended hended)
    · rw [hne _ ht]
      exact ho.ended hended
  · by_cases ht : u = t
    · subst ht
      rw [setStage_stage] at hleft
      exact absurd hleft (by decide)
    · rw [hne _ ht] at hleft
      exact ho.left u hu hleft
  · rw [hentries, forall_moments_cons]
    refine ⟨fun u n hline ↦ ?_, ho.exits⟩
    injection hline with _ _ _ htext
    exact absurd htext (greeting_ne_taskExiting t)

/-- A stage behind the first line, for `main`, or behind the request, for a task. -/
theorem Orderly.turn {t : Thread} {x : Stage} (ho : Orderly startMs a)
    (hstage : (a'.progress t).stage = x)
    (hothers : ∀ u, u ≠ t → a'.progress u = a.progress u) (hentries : a.entries ⊆ a'.entries)
    (hended : a.ended → a'.ended) (hx : x ≠ .fresh) (hs : (a.progress t).stage ≠ .fresh)
    (ht : t ≠ .main → a'.ended) (hmain : t ≠ .main → a'.ended → a.ended)
    (hexits : ∀ y es, y :: es <:+ a'.entries →
      ∀ u n, y = .line u n .info taskExiting → Announced startMs es) :
    Orderly startMs a' := by
  refine ⟨fun hfresh ↦ ?_, fun he ↦ ?_, fun u hu hleft ↦ ?_, hexits⟩
  · by_cases hm : Thread.main = t
    · subst hm
      exact (ho.announced hs).mono hentries
    · rw [hothers _ hm] at hfresh
      exact (ho.announced hfresh).mono hentries
  · by_cases hm : Thread.main = t
    · subst hm
      rwa [hstage]
    · rw [hothers _ hm]
      exact ho.ended (hmain (Ne.symm hm) he)
  · by_cases hut : u = t
    · subst hut
      exact ht hu
    · rw [hothers _ hut] at hleft
      exact hended (ho.left u hu hleft)

theorem Orderly.exit {t : Thread} (ho : Orderly startMs a) (ht : t ≠ .main)
    (hs : (a.progress t).stage = .leaving) :
    Orderly startMs ((a.print t .info taskExiting).setStage t .exited) := by
  have hended := ho.left t ht (.inl hs)
  refine ho.turn (setStage_stage ..) (fun u hu ↦ setStage_ne _ _ hu) (List.subset_cons_self ..) id
    nofun (by simp [hs]) (fun _ ↦ hended) (fun _ ↦ id) ?_
  have hentries : ((a.print t .info taskExiting).setStage t .exited).entries =
      .line t (a.progress t).readMs .info taskExiting :: a.entries := rfl
  rw [hentries, forall_moments_cons]
  exact ⟨fun _ _ _ ↦ ho.announced (ho.ended hended), ho.exits⟩

theorem Orderly.step {timed : List (Commit sig .ctx × ℕ)} {d : SimEvent} (ho : Orderly startMs a)
    (ht : Timed startMs timed a) (hd : a.step d = some a') : Orderly startMs a' := by
  cases step_stepped hd with
  | sys e sys =>
    refine ho.congr (fun t ↦ ?_) (notes_ended ..) (notes_entries ..)
    rw [setDue_stage, notes_progress]
    rfl
  | greet t hs hdue =>
    refine ho.greet hs fun hm ↦ ?_
    subst hm
    exact (ht.due .main).delay.trans (hdue rfl)
  | stateChange => exact ho.entry (fun _ ↦ rfl) rfl rfl nofun
  | stale => exact ho.entry (fun _ ↦ rfl) rfl rfl nofun
  | request hs =>
    exact ho.turn (setStage_stage a .main .leaving) (fun u hu ↦ setStage_ne _ _ hu)
      (List.Subset.refl _) (fun _ ↦ rfl) nofun (by simp [hs]) nofun nofun ho.exits
  | leave t ht hs he =>
    exact ho.turn (setStage_stage a t .leaving) (fun u hu ↦ setStage_ne _ _ hu)
      (List.Subset.refl _) id nofun (by simp [hs]) (fun _ ↦ he) (fun _ ↦ id) ho.exits
  | exit t ht hs => exact ho.exit ht hs
  | finalStatus hs =>
    refine ho.turn (setStage_stage a .main .exited) (fun u hu ↦ setStage_ne _ _ hu)
      (List.subset_cons_self ..) id nofun (by simp [hs]) nofun nofun ?_
    rw [forall_moments_cons]
    exact ⟨nofun, ho.exits⟩
  | read => exact ho.congr (fun _ ↦ setRead_stage ..) rfl rfl
  | _ => exact ho.congr (fun _ ↦ rfl) rfl rfl

theorem run_orderly (hr : Run step (start startMs scenario) k a) : Orderly startMs a := by
  induction hr with
  | start => exact ⟨fun hn ↦ absurd rfl hn, nofun, nofun, by simp [start]⟩
  | next hr hd ih =>
    obtain ⟨_, ht⟩ := run_timed hr
    exact ih.step ht hd

structure Settled (a : Simulator) : Prop where
  joined : ∀ t ∈ a.joined, (a.progress t).stage = .exited
  final : (a.progress .main).stage = .exited → (∀ t, (a.progress t).stage = .exited) ∧
    ∃ es, a.entries = .final a.sys.ctx.status a.sys.ctx.faultMgr.activeFaults :: es

theorem stage_setStage_ne {t u : Thread} {x : Stage} (hs : (a.progress t).stage ≠ .exited)
    (hu : (a.progress u).stage = .exited) : ((a.setStage t x).progress u).stage = .exited := by
  rw [setStage_ne]
  · exact hu
  · rintro rfl
    exact hs hu

theorem exited_step {d : SimEvent} {t : Thread} (hd : a.step d = some a')
    (ht : (a.progress t).stage = .exited) : (a'.progress t).stage = .exited := by
  cases step_stepped hd with
  | sys e sys =>
    rw [setDue_stage, notes_progress]
    exact ht
  | greet u hs =>
    exact stage_setStage_ne (a := a.print u .info u.greeting) (ne_of_eq_of_ne hs nofun) ht
  | request hs => exact stage_setStage_ne (by simp [hs]) ht
  | leave u _ hs => exact stage_setStage_ne (by simp [hs]) ht
  | exit u _ hs =>
    exact stage_setStage_ne (a := a.print u .info taskExiting) (ne_of_eq_of_ne hs nofun) ht
  | finalStatus hs => exact stage_setStage_ne (by simp [hs]) ht
  | read => rwa [setRead_stage]
  | _ => exact ht

theorem stage_of_setStage {t u : Thread} {x : Stage}
    (hu : ((a.setStage t x).progress u).stage = .exited) (hx : x ≠ .exited) :
    (a.progress u).stage = .exited := by
  by_cases hut : u = t
  · subst hut
    rw [setStage_stage] at hu
    exact absurd hu hx
  · rwa [setStage_ne _ _ hut] at hu

/-- Once every thread has ended nothing happens any more. -/
theorem ended_step {d : SimEvent} (hd : a.step d = some a')
    (hall : ∀ t, (a.progress t).stage = .exited) :
    a'.sys = a.sys ∧ a'.entries = a.entries := by
  cases step_stepped hd with
  | sys e sys hs => exact nomatch (hall _).symm.trans hs
  | read => exact ⟨rfl, rfl⟩
  | greet _ hs | stateChange _ hs | join _ hs => exact nomatch (hall _).symm.trans hs
  | leave _ _ hs | exit _ _ hs | stale _ _ hs => exact nomatch (hall _).symm.trans hs
  | cellStep hs | request hs | finalStatus hs => exact nomatch (hall _).symm.trans hs

theorem Settled.step {d : SimEvent} (h : Settled a) (hd : a.step d = some a') : Settled a' := by
  have hjoined : ∀ t ∈ a.joined, (a'.progress t).stage = .exited :=
    fun t ht ↦ exited_step hd (h.joined t ht)
  have hfinal (hm : (a.progress .main).stage = .exited) :
      (∀ t, (a'.progress t).stage = .exited) ∧ ∃ es, a'.entries =
        .final a'.sys.ctx.status a'.sys.ctx.faultMgr.activeFaults :: es := by
    obtain ⟨hall, es, hes⟩ := h.final hm
    obtain ⟨hsys, hentries⟩ := ended_step hd hall
    exact ⟨fun t ↦ exited_step hd (hall t), es, by rw [hentries, hsys, hes]⟩
  refine ⟨?_, fun hm' ↦ ?_⟩
  · cases step_stepped hd with
    | sys e sys => rwa [setDue, setProgress, notes_joined]
    | join t _ _ hx => exact List.forall_mem_cons.mpr ⟨exited_step hd hx, hjoined⟩
    | _ => exact hjoined
  · cases step_stepped hd with
    | sys e sys =>
      rw [setDue_stage, notes_progress] at hm'
      exact hfinal hm'
    | greet t =>
      exact hfinal (stage_of_setStage (a := a.print t .info t.greeting) (x := .running) hm' nofun)
    | request => exact hfinal (stage_of_setStage (a := a) (x := .leaving) hm' nofun)
    | leave => exact hfinal (stage_of_setStage (x := .leaving) hm' nofun)
    | exit t ht =>
      rw [setStage_ne _ _ (Ne.symm ht)] at hm'
      exact hfinal hm'
    | finalStatus hs hj =>
      refine ⟨fun t ↦ ?_, _, rfl⟩
      by_cases ht : t = .main
      · subst ht
        exact hm'
      · exact hjoined t (hj t ht)
    | read =>
      rw [setRead_stage] at hm'
      exact hfinal hm'
    | _ => exact hfinal hm'

theorem run_settled (hr : Run step (start startMs scenario) k a) : Settled a :=
  hr.invariant (I := Settled) ⟨by simp [start], by simp [start]⟩ fun _ _ _ hs hd ↦ hs.step hd

structure Stilled (a : Simulator) : Prop where
  idle : ∀ t, (a.progress t).stage = .leaving ∨ (a.progress t).stage = .exited → a.idle t
  warned : a.warned → ∃ now, a.sys.watchdog = .stale now

theorem idle_sys {e : Event} {sys : System} {t : Thread} (hs : a.sys.step e = some sys)
    (ht : t ≠ owner e.action) {dueMs : ℕ} :
    (((a.setSys sys).notes e.action).setDue (owner e.action) dueMs).idle t = a.idle t := by
  obtain ⟨n, x⟩ := e
  obtain ⟨_, hst⟩ := System.step_stepped hs
  cases hst <;> cases t <;> first | rfl | exact absurd rfl ht

theorem Stilled.sys {e : Event} {sys : System} {dueMs : ℕ} (h : Stilled a)
    (hs : (a.progress (owner e.action)).stage = .running) (hstep : a.sys.step e = some sys) :
    Stilled (((a.setSys sys).notes e.action).setDue (owner e.action) dueMs) := by
  refine ⟨fun t ht ↦ ?_, fun hw ↦ ?_⟩
  · rw [setDue_stage, notes_progress] at ht
    rw [idle_sys hstep]
    · exact h.idle t ht
    · rintro rfl
      rcases ht with ht | ht
      · exact nomatch hs.symm.trans ht
      · exact nomatch hs.symm.trans ht
  · obtain ⟨n, x⟩ := e
    obtain ⟨_, hst⟩ := System.step_stepped hstep
    cases hst with
    | watchdogReport => exact nomatch hw
    | watchdogClock hidle =>
      obtain ⟨now, hstale⟩ := h.warned hw
      exact nomatch hstale.symm.trans hidle
    | watchdogCopy now hsampled =>
      obtain ⟨now, hstale⟩ := h.warned hw
      exact nomatch hstale.symm.trans hsampled
    | _ => exact h.warned hw

theorem Stilled.turn {t : Thread} {x : Stage} (h : Stilled a)
    (hstage : (a'.progress t).stage = x) (hothers : ∀ u, u ≠ t → a'.progress u = a.progress u)
    (hidle : ∀ u, a'.idle u = a.idle u) (hwarned : a'.warned = a.warned) (hsys : a'.sys = a.sys)
    (ht : x = .leaving ∨ x = .exited → a.idle t) : Stilled a' := by
  refine ⟨fun u hu ↦ ?_, fun hw ↦ hsys ▸ h.warned (hwarned ▸ hw)⟩
  rw [hidle]
  by_cases hut : u = t
  · subst hut
    exact ht (hstage ▸ hu)
  · rw [hothers u hut] at hu
    exact h.idle u hu

theorem Stilled.congr (h : Stilled a)
    (hstage : ∀ t, (a'.progress t).stage = (a.progress t).stage)
    (hidle : ∀ t, (a.progress t).stage ≠ .running → a'.idle t = a.idle t)
    (hwarned : a'.warned → ∃ now, a'.sys.watchdog = .stale now) : Stilled a' := by
  refine ⟨fun t ht ↦ ?_, hwarned⟩
  rw [hstage] at ht
  rw [hidle t (by rcases ht with ht | ht <;> simp [ht])]
  exact h.idle t ht

theorem Stilled.step {d : SimEvent} (h : Stilled a) (hd : a.step d = some a') : Stilled a' := by
  cases step_stepped hd with
  | sys e sys hs _ _ hstep => exact h.sys hs hstep
  | greet t hs =>
    exact h.turn (setStage_stage ..) (fun u hu ↦ setStage_ne _ _ hu) (fun u ↦ by cases u <;> rfl)
      rfl rfl nofun
  | request hs =>
    exact h.turn (setStage_stage a .main .leaving) (fun u hu ↦ setStage_ne _ _ hu)
      (fun u ↦ by cases u <;> rfl) rfl rfl fun _ ↦ rfl
  | leave t ht hs he hi =>
    exact h.turn (setStage_stage a t .leaving) (fun u hu ↦ setStage_ne _ _ hu)
      (fun u ↦ by cases u <;> rfl) rfl rfl fun _ ↦ hi
  | exit t ht hs =>
    exact h.turn (setStage_stage ..) (fun u hu ↦ setStage_ne _ _ hu) (fun u ↦ by cases u <;> rfl)
      rfl rfl fun _ ↦ h.idle t (.inl hs)
  | finalStatus hs =>
    exact h.turn (setStage_stage a .main .exited) (fun u hu ↦ setStage_ne _ _ hu)
      (fun u ↦ by cases u <;> rfl) rfl rfl fun _ ↦ rfl
  | read t nowMs =>
    exact h.congr (fun _ ↦ setRead_stage ..) (fun u _ ↦ by cases u <;> rfl) h.warned
  | cellStep hs =>
    refine h.congr (fun _ ↦ rfl) (fun u hu ↦ ?_) h.warned
    cases u <;> first | rfl | exact absurd hs hu
  | stateChange x hs hx =>
    refine h.congr (fun _ ↦ rfl) (fun u hu ↦ ?_) h.warned
    cases u <;> first | rfl | exact absurd hs hu
  | stale now hnow =>
    exact h.congr (fun _ ↦ rfl) (fun u _ ↦ by cases u <;> rfl) fun _ ↦ ⟨now, hnow⟩
  | join t => exact h.congr (fun _ ↦ rfl) (fun u _ ↦ by cases u <;> rfl) h.warned

theorem run_stilled (hr : Run step (start startMs scenario) k a) : Stilled a :=
  hr.invariant (I := Stilled) ⟨by simp [start], by simp [start]⟩ fun _ _ _ hs hd ↦ hs.step hd

end Simulator

/-- All that a task has to say between its first and its last line. -/
def story (commits : List (Commit sig .ctx)) : Thread → List (LogLevel × String)
  | .fault => (changes (findings commits)).map fun x ↦ (.warn, stateChange x.1 x.2)
  | .watchdog => List.replicate (reports commits) (.error, staleHeartbeat)
  | _ => []

namespace Simulator

variable {startMs : ℕ} {scenario : CellScenario} {k : List SimEvent} {a : Simulator}

theorem remarks_exited (hr : Run step (start startMs scenario) k a) {t : Thread}
    (ht : (a.progress t).stage = .exited) : a.remarks t = story a.commits t := by
  have hstilled := run_stilled hr
  have hidle := hstilled.idle t (.inr ht)
  cases t with
  | fault =>
    have hnone : a.unlogged = none := Option.isNone_iff_eq_none.mp (Bool.and_eq_true_iff.mp hidle).2
    rw [remarks, loggedChanges, hnone, (run_journal hr).logged.seen]
    rfl
  | watchdog =>
    have hwarned : a.warned = false := by
      by_contra hw
      obtain ⟨now, hnow⟩ := hstilled.warned (Bool.not_eq_false _ ▸ hw)
      exact nomatch hnow.symm.trans (of_decide_eq_true hidle)
    rw [remarks, hwarned]
    rfl
  | _ => rfl

end Simulator

end BmsFirmware.Firmware
