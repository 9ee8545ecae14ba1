import BmsFirmware.Simulator

namespace BmsFirmware.Firmware

open Config CanProtocol Function Lib.Tick Lib.Threads Lib.History

abbrev Own : Thread → Type
  | .main => List Thread
  | .sensor => Option CellReading
  | .soc => Unit
  | .fault => Option UInt32 × Option (BmsState × UInt16) × BmsState
  | .can => CanTask
  | .watchdog => WatchdogPc × Bool

/-- The console that shows these entries, below what `main` prints first. -/
def consoleOf (argv : List String) (entries : List Entry) : List String :=
  entries.flatMap Entry.pieces ++ [banner argv, "=== BMS Firmware Simulator ===\n"]

/-- Every entry comes with a section of its thread. -/
def showing (argv : List String) : List Entry → List (Commit sig .console)
  | [] => []
  | x :: entries => ⟨x.thread, false, consoleOf argv (x :: entries)⟩ :: showing argv entries

namespace Simulator

def own (a : Simulator) : ∀ t, Own t
  | .main => a.joined
  | .sensor => a.sample
  | .soc => ()
  | .fault => (a.sys.faultNow, a.seen.head?, a.logged)
  | .can => a.sys.can
  | .watchdog => (a.sys.watchdog, a.warned)

/-- The shared variables and the environment, as the simulator has them. -/
structure Couples (argv : List String) (e : Env) (m : ∀ v, sig.recorded.Val v) (a : Simulator) :
    Prop where
  ctx : m .ctx = (a.sys.ctx, a.commits)
  cell : (m .cellModel).1 = a.cell
  wire : (m .wire).1 = a.sys.can.bus.map (·.frame)
  console : m .console = (consoleOf argv a.entries, showing argv a.entries)
  shutdown : e.shutdown = a.ended
  clock : a.sys.clockMs ≤ e.clockMs
  read : ∀ t, (a.progress t).readMs ≤ e.clockMs
  due : ∀ t, (a.progress t).dueMs ≤ e.clockMs + t.periodMs.toNat

theorem Couples.ctx_eq {argv : List String} {e : Env} {m : ∀ v, sig.recorded.Val v} {a : Simulator}
    (hc : Couples argv e m a) : m .ctx = (a.sys.ctx, (m .ctx).2) := by
  rw [hc.ctx]

@[simp] theorem setProgress_own (a : Simulator) (t u : Thread) (p : Progress) :
    (a.setProgress t p).own u = a.own u := by
  cases u <;> rfl

end Simulator

open Simulator

abbrev machine (argv : List String) : Abstraction sig.recorded where
  State := Simulator
  Event := SimEvent
  step := Simulator.step
  View := fun t ↦ Progress × Own t
  view := fun t a ↦ (a.progress t, a.own t)
  post := fun _ x ↦ x.1.stage = .exited
  couples := Couples argv

abbrev Outlined (argv : List String) (t : Thread) (k : Code sig (Locals t.Vars))
    (Q : Locals t.Vars → Progress × Own t → Prop) : Locals t.Vars → Progress × Own t → Prop :=
  wp (machine argv) t (k.record t none) Q

variable {argv : List String} {t : Thread} {e e' : Env} {m m' : ∀ v, sig.recorded.Val v}
  {a a' : Simulator} {l : Locals t.Vars} {p : Progress} {o : Own t}

section Rules

variable {Q : Locals t.Vars → Progress × Own t → Prop} {x : Progress × Own t}
  {k k' k'' : Code sig (Locals t.Vars)}

theorem outlined_seq (h : Outlined argv t k (Outlined argv t k' Q) l x) :
    Outlined argv t (k.seq k') Q l x :=
  wp_record_seq (S := sig) (A := machine argv) h

theorem outlined_branch {c : Locals t.Vars → Bool}
    (hk : c l = true → Outlined argv t k (Outlined argv t k'' Q) l x)
    (hk' : c l = false → Outlined argv t k' (Outlined argv t k'' Q) l x) :
    Outlined argv t (.branch c k k' k'') Q l x :=
  wp_branch hk hk'

theorem outlined_loop {c : Env → Locals t.Vars → Bool}
    (I : Locals t.Vars → Progress × Own t → Prop) (hI : I l x)
    (hk : ∀ l x, I l x → Outlined argv t k I l x)
    (hk' : ∀ l x e m, I l x → c e l = false →
      Simulates (machine argv) t (Couples argv e m) (Couples argv e m) x fun x' ↦
        Outlined argv t k' Q l x') : Outlined argv t (.loop c k k') Q l x :=
  wp_loop I hI hk hk'

end Rules

/-- A step that is the simulator's as far as the views go. -/
theorem simulates_one {C C' : Simulator → Prop} {R : Progress × Own t → Prop}
    (h : ∀ a, C a → a.progress t = p → a.own t = o → ∃ d a', a.step d = some a' ∧ C' a' ∧
      (∀ u, u ≠ t → a'.progress u = a.progress u ∧ a'.own u = a.own u) ∧
      R (a'.progress t, a'.own t)) : Simulates (machine argv) t C C' (p, o) R := by
  refine .one fun a hC hx ↦ ?_
  obtain ⟨hp, ho⟩ := Prod.mk.inj hx
  obtain ⟨d, a', hs, hC', hu, hR⟩ := h a hC hp ho
  exact ⟨d, a', hs, hC', fun u hut ↦ Prod.ext (hu u hut).1 (hu u hut).2, hR⟩

section Clock

variable {Q : Locals t.Vars → Progress × Own t → Prop}

theorem Simulator.Couples.setRead (hc : Couples argv e m a) {nowMs : ℕ} (hn : e.clockMs ≤ nowMs) :
    Couples argv { e with clockMs := nowMs } m (a.setRead t nowMs) := by
  refine ⟨hc.ctx, hc.cell, hc.wire, hc.console, hc.shutdown, hc.clock.trans hn, fun u ↦ ?_,
    fun u ↦ ?_⟩
  · by_cases hu : u = t
    · subst hu
      simp [Simulator.setRead]
    · rw [Simulator.setRead, setProgress_ne _ _ hu]
      exact (hc.read u).trans hn
  · have hdue : ((a.setRead t nowMs).progress u).dueMs = (a.progress u).dueMs := by
      by_cases hu : u = t
      · subst hu
        simp [Simulator.setRead]
      · rw [Simulator.setRead, setProgress_ne _ _ hu]
    rw [hdue]
    exact (hc.due u).trans (Nat.add_le_add_right hn _)

/-- A reading of the clock that its thread keeps. -/
theorem simulates_read {C : Simulator → Prop} {nowMs : ℕ} (hn : e.clockMs ≤ nowMs)
    {R : Progress × Own t → Prop} (hC : ∀ a, C a → Couples argv e m a)
    (hR : p.readMs ≤ nowMs → p.dueMs ≤ e.clockMs + t.periodMs.toNat →
      R ({ p with readMs := nowMs }, o)) :
    Simulates (machine argv) t C (Couples argv { e with clockMs := nowMs } m) (p, o) R := by
  refine simulates_one fun a ha hp ho ↦ ?_
  have hc := hC a ha
  have hle : (a.progress t).readMs ≤ nowMs := (hc.read t).trans hn
  refine ⟨.read t nowMs, a.setRead t nowMs, if_pos hle, hc.setRead hn, fun u hu ↦ ?_, ?_⟩
  · exact ⟨setProgress_ne _ _ hu, setProgress_own ..⟩
  · have hdue := hc.due t
    rw [Simulator.setRead, setProgress_self, setProgress_own, hp, ho]
    rw [hp] at hle hdue
    exact hR hle hdue

theorem wp_osalGetTickMs {f : UInt32 → Locals t.Vars → Locals t.Vars}
    {k : Code sig (Locals t.Vars)} (h : ∀ nowMs, p.readMs ≤ nowMs →
      Outlined argv t k Q (f (tick nowMs) l) ({ p with readMs := nowMs }, o)) :
    Outlined argv t (osalGetTickMs f k) Q l (p, o) := by
  intro nowMs e m r hr
  simp only [clocked, Option.ite_none_right_eq_some, Option.some.injEq] at hr
  obtain ⟨⟨hn, _⟩, rfl⟩ := hr
  exact simulates_read hn (fun _ ↦ id) fun hle _ ↦ h nowMs hle

/-- Behind a delay of at least its period a thread is due again. -/
theorem wp_osalTaskDelayMs {ms : UInt32} (hms : t.periodMs ≤ ms)
    (h : ∀ nowMs l', l'.vars = l.vars → p.readMs ≤ nowMs → p.dueMs ≤ nowMs →
      Q l' ({ p with readMs := nowMs }, o)) :
    Outlined argv t (osalTaskDelayMs ms) Q l (p, o) := by
  intro nowMs e m r hr
  simp only [clocked, Option.ite_none_right_eq_some, Option.some.injEq] at hr
  obtain ⟨⟨hn, _⟩, rfl⟩ := hr
  refine simulates_read hn (fun _ ↦ id) fun hle hdue ↦ ?_
  intro laterMs e m r hr
  simp only [clocked, Option.ite_none_right_eq_some, Option.some.injEq, decide_eq_true_eq] at hr
  obtain ⟨⟨hn', hwake⟩, rfl⟩ := hr
  refine simulates_read hn' (fun _ ↦ id) fun hle' _ ↦ h laterMs _ rfl (hle.trans hle') ?_
  have hms' : t.periodMs.toNat ≤ ms.toNat := hms
  omega

theorem wp_setVars {x : Progress × Own t} {f : t.Vars → t.Vars} {k : Code sig (Locals t.Vars)}
    (h : Outlined argv t k Q { l with vars := f l.vars } x) :
    Outlined argv t (setVars f k) Q l x := by
  intro _ e m r hr
  obtain rfl := Option.some.inj hr
  exact .stay (fun _ ↦ id) h

end Clock

section Log

structure Says (t : Thread) (level : LogLevel) (text : String) (a a' : Simulator) : Prop where
  entries : a'.entries = .line t (a.progress t).readMs level text :: a.entries
  sys : a'.sys = a.sys
  commits : a'.commits = a.commits
  cell : a'.cell = a.cell
  ended : a'.ended = a.ended
  others : ∀ u, u ≠ t → a'.progress u = a.progress u ∧ a'.own u = a.own u
  readMs : (a'.progress t).readMs = (a.progress t).readMs
  dueMs : (a'.progress t).dueMs = (a.progress t).dueMs

theorem Simulator.Couples.says (hc : Couples argv e m a) {level : LogLevel} {text : String}
    (hs : Says t level text a a') :
    Couples argv e (update m .console (consoleOf argv a'.entries, showing argv a'.entries)) a' := by
  have hprogress (u : Thread) : (a'.progress u).readMs = (a.progress u).readMs ∧
      (a'.progress u).dueMs = (a.progress u).dueMs := by
    by_cases hu : u = t
    · subst hu
      exact ⟨hs.readMs, hs.dueMs⟩
    · rw [(hs.others u hu).1]
      exact ⟨rfl, rfl⟩
  refine ⟨hc.ctx.trans (by rw [hs.sys, hs.commits]), hc.cell.trans hs.cell.symm,
    hc.wire.trans (by rw [hs.sys]), ?_, hc.shutdown.trans hs.ended.symm, hs.sys ▸ hc.clock,
    fun u ↦ (hprogress u).1 ▸ hc.read u, fun u ↦ (hprogress u).2 ▸ hc.due u⟩
  rw [update_self]

variable {Q : Locals t.Vars → Progress × Own t → Prop} {level : LogLevel} {task : String}
  {text : t.Vars → String}

theorem wp_logMsg (htask : task = t.name) (d : SimEvent)
    (h : ∀ nowMs, p.readMs ≤ nowMs → ∀ a : Simulator, a.progress t = { p with readMs := nowMs } →
      a.own t = o → ∃ a', a.step d = some a' ∧ Says t level (text l.vars) a a' ∧
        Q { l with tickMs := tick nowMs } (a'.progress t, a'.own t)) :
    Outlined argv t (logMsg level task text) Q l (p, o) := by
  subst htask
  refine wp_osalGetTickMs fun nowMs hle ↦ ?_
  intro e m
  refine simulates_one fun a hc hp ho ↦ ?_
  obtain ⟨a', hd, hs, hQ⟩ := h nowMs hle a hp ho
  refine ⟨d, a', hd, ?_, hs.others, hQ⟩
  have hc' := hc.says hs
  rw [hs.entries, hp] at hc'
  simp only [update_self, update_idem, hc.console]
  exact hc'

theorem says_setStage (a : Simulator) (t : Thread) (level : LogLevel) (text : String) (x : Stage) :
    Says t level text a ((a.print t level text).setStage t x) := by
  refine ⟨rfl, rfl, rfl, rfl, rfl, fun u hu ↦ ⟨setProgress_ne _ _ hu, setProgress_own ..⟩, ?_, ?_⟩
  · rw [Simulator.setStage, setProgress_self]
    rfl
  · rw [Simulator.setStage, setProgress_self]
    rfl

theorem wp_setStage {text : String} {x : Stage} (htask : task = t.name) (d : SimEvent)
    (hd : ∀ a : Simulator, (a.progress t).stage = p.stage → (a.progress t).dueMs = p.dueMs →
      p.readMs ≤ (a.progress t).readMs → a.own t = o →
      a.step d = some ((a.print t level text).setStage t x))
    (h : ∀ readMs l', l'.vars = l.vars → p.readMs ≤ readMs → Q l' (⟨x, readMs, p.dueMs⟩, o)) :
    Outlined argv t (logMsg level task fun _ ↦ text) Q l (p, o) := by
  refine wp_logMsg htask d fun nowMs hle a ha ho ↦ ?_
  refine ⟨_, hd a (by rw [ha]) (by rw [ha]) (by rwa [ha]) ho, says_setStage a t level text x, ?_⟩
  have hown : (a.print t level text).own t = o := by
    rw [← ho]
    cases t <;> rfl
  rw [Simulator.setStage, setProgress_self, setProgress_own, hown]
  change Q _ ({ a.progress t with stage := x }, o)
  rw [ha]
  exact h nowMs _ rfl hle

theorem wp_greet {greeting : String} (htask : task = t.name) (hgreeting : greeting = t.greeting)
    (hp : p.stage = .fresh) (hdue : t = .main → p.dueMs ≤ p.readMs)
    (h : ∀ readMs l', l'.vars = l.vars → p.readMs ≤ readMs →
      Q l' (⟨.running, readMs, p.dueMs⟩, o)) :
    Outlined argv t (logMsg .info task fun _ ↦ greeting) Q l (p, o) := by
  subst hgreeting
  refine wp_setStage htask (.greet t) (fun a hstage hdue' hread ho ↦ if_pos ?_) h
  exact ⟨hstage.trans hp, fun ht ↦ hdue' ▸ (hdue ht).trans hread⟩

theorem wp_exit (htask : task = t.name) (ht : t ≠ .main) (hp : p.stage = .leaving)
    (h : ∀ l' x, x.1.stage = .exited → Q l' x) :
    Outlined argv t (logMsg .info task fun _ ↦ taskExiting) Q l (p, o) :=
  wp_setStage htask (.exit t) (fun _ hstage _ _ _ ↦ if_pos ⟨ht, hstage.trans hp⟩) fun _ _ _ _ ↦
    h _ _ rfl

end Log

section Act

variable {x : Action} {sys : System} {timeMs : ℕ}

theorem act_own (h : a.sys.step ⟨timeMs, x⟩ = some sys) {u : Thread} (hu : u ≠ owner x) :
    ((a.setSys sys).notes x).own u = a.own u := by
  obtain ⟨_, hs⟩ := System.step_stepped h
  cases hs <;> cases u <;> first | rfl | exact absurd rfl hu

theorem Simulator.Couples.act (hc : Couples argv e m a) (hclock : e.clockMs ≤ e'.clockMs)
    (hshutdown : e'.shutdown = e.shutdown) (hconsole : m' .console = m .console)
    (hcell : m' .cellModel = m .cellModel)
    (hctx : m' .ctx = (sys.ctx, committed x sys.ctx (m .ctx).2))
    (hwire : (m' .wire).1 = sys.can.bus.map (·.frame)) (hsys : sys.clockMs = e'.clockMs) :
    Couples argv e' m' (((a.setSys sys).notes x).setDue (owner x)
      (e'.clockMs + (owner x).periodMs.toNat)) := by
  have hs : ((a.setSys sys).notes x).sys = sys := notes_sys ..
  have hcell' : ((a.setSys sys).notes x).cell = a.cell := notes_cell ..
  have hended : ((a.setSys sys).notes x).ended = a.ended := notes_ended ..
  have hentries : ((a.setSys sys).notes x).entries = a.entries := notes_entries ..
  have hprogress : ((a.setSys sys).notes x).progress = a.progress := notes_progress ..
  have hcommits : ((a.setSys sys).notes x).commits = committed x sys.ctx (m .ctx).2 :=
    congrArg (committed x sys.ctx) (congrArg Prod.snd hc.ctx).symm
  refine ⟨hctx.trans (Prod.ext (congrArg System.ctx hs.symm) hcommits.symm),
    ((congrArg Prod.fst hcell).trans hc.cell).trans hcell'.symm,
    hwire.trans (congrArg (·.can.bus.map (·.frame)) hs.symm), ?_,
    (hshutdown.trans hc.shutdown).trans hended.symm,
    (congrArg System.clockMs hs).trans_le hsys.le, fun u ↦ ?_, fun u ↦ ?_⟩
  · rw [hconsole, hc.console]
    exact Prod.ext (congrArg (consoleOf argv) hentries.symm)
      (congrArg (showing argv) hentries.symm)
  · have hread := (hc.read u).trans hclock
    by_cases hu : u = owner x
    · subst hu
      rw [Simulator.setDue, setProgress_self, hprogress]
      exact hread
    · rw [Simulator.setDue, setProgress_ne _ _ hu, hprogress]
      exact hread
  · by_cases hu : u = owner x
    · subst hu
      rw [Simulator.setDue, setProgress_self]
    · rw [Simulator.setDue, setProgress_ne _ _ hu, hprogress]
      exact (hc.due u).trans (Nat.add_le_add_right hclock _)

/-- An action is made where its section or its call is. -/
theorem simulates_act {o : Own (owner x)} {R : Progress × Own (owner x) → Prop}
    (hp : p.stage = .running) (hdue : begins x → p.dueMs ≤ p.readMs)
    (hclock : e.clockMs ≤ e'.clockMs) (hshutdown : e'.shutdown = e.shutdown)
    (hconsole : m' .console = m .console) (hcell : m' .cellModel = m .cellModel)
    (h : ∀ a : Simulator, Couples argv e m a → a.own (owner x) = o → a.permits x = true ∧
      ∃ sys, a.sys.fire (tick e'.clockMs) x = some sys ∧
        m' .ctx = (sys.ctx, committed x sys.ctx (m .ctx).2) ∧
        (m' .wire).1 = sys.can.bus.map (·.frame) ∧
        ∀ dueMs, R ({ p with dueMs := dueMs }, ((a.setSys sys).notes x).own (owner x))) :
    Simulates (machine argv) (owner x) (Couples argv e m) (Couples argv e' m') (p, o) R := by
  refine simulates_one fun a hc ha ho ↦ ?_
  obtain ⟨hpermits, sys, hfire, hctx, hwire, hR⟩ := h a hc ho
  have hread := hc.read (owner x)
  rw [ha] at hread
  have hstep := System.step_of_fire (hc.clock.trans hclock) hfire
  generalize hnow : { sys with clockMs := e'.clockMs } = sys' at hstep
  have hsys : sys'.ctx = sys.ctx ∧ sys'.can = sys.can ∧ sys'.clockMs = e'.clockMs :=
    hnow ▸ ⟨rfl, rfl, rfl⟩
  have hown : ((a.setSys sys').notes x).own (owner x) = ((a.setSys sys).notes x).own (owner x) := by
    subst hnow
    cases x <;> rfl
  have hkeeps : ((a.setSys sys').notes x).progress = a.progress := notes_progress ..
  refine ⟨.sys ⟨e'.clockMs, x⟩, _, ?_, hc.act (x := x) hclock hshutdown hconsole hcell
    (by rw [hctx, hsys.1]) (hwire.trans (by rw [hsys.2.1])) hsys.2.2,
    fun u hu ↦ ⟨?_, ?_⟩, ?_⟩
  · have hguard : (a.progress (owner x)).stage = .running ∧ a.permits x = true ∧
        (begins x = true → (a.progress (owner x)).dueMs ≤ e'.clockMs) := by
      rw [ha]
      exact ⟨hp, hpermits, fun hb ↦ (hdue hb).trans (hread.trans hclock)⟩
    exact (if_pos hguard).trans (congrArg _ hstep)
  · rw [setDue_ne _ _ hu, hkeeps]
  · rw [Simulator.setDue, setProgress_own, act_own hstep hu]
  · rw [setDue_self, Simulator.setDue, setProgress_own, hkeeps, hown]
    change R ({ a.progress (owner x) with dueMs := _ }, _)
    rw [ha]
    exact hR _

end Act

structure Due (p : Progress) : Prop where
  running : p.stage = .running
  due : p.dueMs ≤ p.readMs

theorem simulates_cellStep {R : Progress × Own .sensor → Prop} (hp : p.stage = .running)
    {past : List (Commit sig .cellModel)}
    (hR : R (p, some ((m .cellModel).1.step taskPeriodSensorMs).2)) :
    Simulates (machine argv) .sensor (Couples argv e m)
      (Couples argv e (update m .cellModel (((m .cellModel).1.step taskPeriodSensorMs).1, past)))
      (p, none) R := by
  refine simulates_one fun a hc ha ho ↦ ⟨.cellStep, _, if_pos ⟨ha ▸ hp, ho⟩, ?_,
    fun u hu ↦ ⟨rfl, ?_⟩, ?_⟩
  · exact ⟨hc.ctx, by rw [update_self, hc.cell], hc.wire, hc.console, hc.shutdown, hc.clock,
      hc.read, hc.due⟩
  · cases u <;> first | rfl | exact absurd rfl hu
  · change R (a.progress .sensor, some (a.cell.step taskPeriodSensorMs).2)
    rwa [ha, ← hc.cell]

theorem Simulator.Couples.setStage (hc : Couples argv e m a) (t : Thread) (x : Stage) :
    Couples argv e m (a.setStage t x) := by
  have hprogress (u : Thread) : ((a.setStage t x).progress u).readMs = (a.progress u).readMs ∧
      ((a.setStage t x).progress u).dueMs = (a.progress u).dueMs := by
    by_cases hu : u = t
    · subst hu
      rw [Simulator.setStage, setProgress_self]
      exact ⟨rfl, rfl⟩
    · rw [Simulator.setStage, setProgress_ne _ _ hu]
      exact ⟨rfl, rfl⟩
  exact ⟨hc.ctx, hc.cell, hc.wire, hc.console, hc.shutdown, hc.clock,
    fun u ↦ (hprogress u).1 ▸ hc.read u, fun u ↦ (hprogress u).2 ▸ hc.due u⟩

/-- A task leaves its loop once it has seen the request for shutdown. -/
theorem simulates_exit {Q : Locals t.Vars → Progress × Own t → Prop} {task : String}
    (ht : t ≠ .main) (htask : task = t.name) (hp : p.stage = .running)
    (hshutdown : notShutdown e l = false) (hidle : ∀ a : Simulator, a.own t = o → a.idle t)
    (hQ : ∀ l' x, x.1.stage = .exited → Q l' x) :
    Simulates (machine argv) t (Couples argv e m) (Couples argv e m) (p, o)
      (Outlined argv t (logMsg .info task fun _ ↦ taskExiting) Q l) := by
  refine simulates_one fun a hc ha ho ↦ ?_
  have hended : a.ended = true := by
    rw [← hc.shutdown]
    exact Bool.not_eq_false' _ |>.mp hshutdown
  refine ⟨.leave t, a.setStage t .leaving, if_pos ⟨ht, ha ▸ hp, hended, hidle a ho⟩,
    hc.setStage t .leaving, fun u hu ↦ ⟨setProgress_ne _ _ hu, setProgress_own ..⟩, ?_⟩
  rw [Simulator.setStage, setProgress_self, setProgress_own]
  exact wp_exit htask ht rfl hQ

theorem wp_taskSensorMain (l : Locals CellReading) (hp : p.stage = .fresh)
    (hdue : p.dueMs ≤ p.readMs) :
    Outlined argv .sensor taskSensorMain (fun _ x ↦ x.1.stage = .exited) l (p, none) := by
  refine outlined_seq (wp_greet rfl rfl hp nofun fun readMs l' _ hle ↦ ?_)
  refine outlined_loop (fun _ x ↦ Due x.1 ∧ x.2 = none) ⟨⟨rfl, hdue.trans hle⟩, rfl⟩ ?_ ?_
  · rintro l ⟨p, _⟩ ⟨hd, rfl⟩ _ m₀
    refine simulates_cellStep hd.running ?_
    intro e m nowMs r hr
    simp only [clocked, Option.ite_none_right_eq_some, Option.some.injEq] at hr
    obtain ⟨⟨hn, _⟩, rfl⟩ := hr
    refine simulates_act (x := .sensorSection ((m₀ .cellModel).1.step taskPeriodSensorMs).2)
      hd.running (fun _ ↦ hd.due) hn rfl rfl rfl ?_
    intro a hc ho
    refine ⟨decide_eq_true ho, _, rfl, ?_, hc.wire, fun dueMs ↦ ?_⟩
    · simp only [update_self, hc.ctx]
      rfl
    · exact wp_osalTaskDelayMs (by decide) fun nowMs l' _ _ hdue ↦ ⟨⟨hd.running, hdue⟩, rfl⟩
  · rintro l ⟨p, _⟩ e m ⟨hd, rfl⟩ he
    refine simulates_exit nofun rfl hd.running he ?_ fun _ _ ↦ id
    intro a ho
    exact Option.isNone_iff_eq_none.mpr ho

theorem wp_taskSocMain (l : Locals SocVars) (hp : p.stage = .fresh) (hdue : p.dueMs ≤ p.readMs) :
    Outlined argv .soc taskSocMain (fun _ x ↦ x.1.stage = .exited) l (p, ()) := by
  refine outlined_seq (wp_greet rfl rfl hp nofun fun readMs l' _ hle ↦ ?_)
  refine outlined_loop (fun _ x ↦ Due x.1) ⟨rfl, hdue.trans hle⟩ ?_ ?_
  · rintro l ⟨p, _⟩ hd e m nowMs r hr
    simp only [clocked, Option.ite_none_right_eq_some, Option.some.injEq] at hr
    obtain ⟨⟨hn, _⟩, rfl⟩ := hr
    refine simulates_act (x := .socSection) hd.running (fun _ ↦ hd.due) hn rfl rfl rfl ?_
    intro a hc ho
    refine ⟨rfl, _, rfl, ?_, hc.wire, fun dueMs ↦ ?_⟩
    · simp only [update_self, hc.ctx]
      rfl
    · exact wp_osalTaskDelayMs (by decide) fun nowMs l' _ _ hdue ↦ ⟨hd.running, hdue⟩
  · rintro l ⟨p, _⟩ e m hd he
    exact simulates_exit nofun rfl hd.running he (fun _ _ ↦ rfl) fun _ _ ↦ id

theorem fire_faultClock {s : System} {tickMs : UInt32} (h : s.faultNow = none) :
    s.fire tickMs .faultClock = some { s with faultNow := some tickMs } := by
  simp only [System.fire, h]

theorem fire_faultSection {s : System} {tickMs now : UInt32} (h : s.faultNow = some now) :
    s.fire tickMs .faultSection =
      some { s with ctx := s.ctx.faultSection now, faultNow := none } := by
  simp only [System.fire, h]

structure FaultVars.Logs (v : FaultVars) (o : Own .fault) : Prop where
  now : o.1 = none
  logged : o.2.2 = v.lastLoggedState
  last : ∀ s, o.2.1 = some s → s.1 = v.lastLoggedState

theorem FaultVars.Logs.idle {v : FaultVars} (h : v.Logs (a.own .fault)) : a.idle .fault = true := by
  obtain ⟨hnow, hlogged, hlast⟩ := h
  refine Bool.and_eq_true_iff.mpr ⟨Option.isNone_iff_eq_none.mpr hnow, ?_⟩
  refine Option.isNone_iff_eq_none.mpr (Option.filter_eq_none_iff.mpr fun s hs ↦ ?_)
  rw [hlast s hs, ← hlogged]
  simp [own]

theorem wp_stateChange {Q : Locals FaultVars → Progress × Own .fault → Prop} {l : Locals FaultVars}
    {logged : BmsState} (hp : p.stage = .running) (hs : l.vars.state ≠ logged)
    (h : ∀ readMs l', l'.vars = l.vars → p.readMs ≤ readMs → Q l'
      (⟨.running, readMs, p.dueMs⟩, none, some (l.vars.state, l.vars.faults), l.vars.state)) :
    Outlined argv .fault (logMsg .warn "fault" fun v ↦ stateChange v.state v.faults) Q l
      (p, none, some (l.vars.state, l.vars.faults), logged) := by
  refine wp_logMsg rfl .stateChange fun nowMs hle a ha ho ↦ ?_
  obtain ⟨hnow, ho⟩ := Prod.mk.inj ho
  obtain ⟨hseen, hlogged⟩ := Prod.mk.inj ho
  have hunlogged : a.unlogged = some (l.vars.state, l.vars.faults) := by
    rw [unlogged, hseen, hlogged]
    simp [hs]
  refine ⟨_, (if_pos ?_).trans (congrArg _ hunlogged), ?_, ?_⟩
  · rw [ha]
    exact hp
  · refine ⟨rfl, rfl, rfl, rfl, rfl, fun u hu ↦ ⟨rfl, ?_⟩, rfl, rfl⟩
    cases u <;> first | rfl | exact absurd rfl hu
  · change Q _ (a.progress .fault, a.sys.faultNow, a.seen.head?, l.vars.state)
    rw [ha, hnow, hseen, hp]
    exact h nowMs _ rfl hle

theorem wp_logChange {Q : Locals FaultVars → Progress × Own .fault → Prop} {l : Locals FaultVars}
    {o : Own .fault} (hp : p.stage = .running)
    (ho : o = (none, some (l.vars.state, l.vars.faults), l.vars.lastLoggedState))
    (h : ∀ p' l' o', p'.stage = .running → l'.vars.Logs o' → Q l' (p', o')) :
    Outlined argv .fault logChange Q l (p, o) := by
  subst ho
  refine outlined_branch (fun hne ↦ ?_) fun heq ↦ ?_
  · refine outlined_seq (wp_stateChange hp (of_decide_eq_true hne) fun readMs l' hl' _ ↦
      wp_setVars ?_)
    refine h _ _ _ rfl ⟨rfl, congrArg FaultVars.state hl'.symm, ?_⟩
    rintro s hs
    exact (congrArg Prod.fst (Option.some.inj hs)).symm.trans (congrArg FaultVars.state hl'.symm)
  · refine h _ _ _ hp ⟨rfl, rfl, ?_⟩
    rintro s hs
    rw [← Option.some.inj hs]
    exact not_not.mp (of_decide_eq_false heq)

theorem wp_taskFaultMain (l : Locals FaultVars) (hp : p.stage = .fresh)
    (hdue : p.dueMs ≤ p.readMs) :
    Outlined argv .fault taskFaultMain (fun _ x ↦ x.1.stage = .exited) l
      (p, none, none, .normal) := by
  refine outlined_seq (wp_greet rfl rfl hp nofun fun readMs l' _ hle ↦ ?_)
  refine wp_setVars (outlined_loop (fun l x ↦ Due x.1 ∧ l.vars.Logs x.2)
    ⟨⟨rfl, hdue.trans hle⟩, rfl, rfl, nofun⟩ ?_ ?_)
  · rintro l ⟨p, o⟩ ⟨hd, hlogs⟩ nowMs e m r hr
    simp only [clocked, Option.ite_none_right_eq_some, Option.some.injEq] at hr
    obtain ⟨⟨hn, _⟩, rfl⟩ := hr
    refine simulates_act (x := .faultClock) hd.running (fun _ ↦ hd.due) hn rfl rfl rfl ?_
    rintro a hc rfl
    have hidle := Bool.and_eq_true_iff.mp hlogs.idle
    refine ⟨hidle.2, _, fire_faultClock hlogs.now, hc.ctx_eq, hc.wire, fun dueMs e m ↦ ?_⟩
    refine simulates_act (x := .faultSection) hd.running nofun le_rfl rfl rfl rfl ?_
    intro b hc ho
    obtain ⟨hnow, ho⟩ := Prod.mk.inj ho
    obtain ⟨_, hlogged⟩ := Prod.mk.inj ho
    refine ⟨rfl, _, fire_faultSection hnow, ?_, hc.wire, fun dueMs ↦ ?_⟩
    · simp only [update_self, hc.ctx]
      rfl
    · refine outlined_seq (wp_logChange hd.running ?_ fun p' l' o' hp' hlogs' ↦ ?_)
      · simp only [update_self, hc.ctx]
        rw [← hlogs.logged]
        exact congrArg (fun logged ↦ (none, some _, logged)) hlogged
      · exact wp_osalTaskDelayMs (by decide) fun nowMs l'' hl'' _ hdue ↦
          ⟨⟨hp', hdue⟩, hl'' ▸ hlogs'⟩
  · rintro l ⟨p, o⟩ e m ⟨hd, hlogs⟩ he
    refine simulates_exit nofun rfl hd.running he ?_ fun _ _ ↦ id
    rintro a rfl
    exact hlogs.idle

theorem fire_watchdogClock {s : System} {tickMs : UInt32} (h : s.watchdog = .idle) :
    s.fire tickMs .watchdogClock = some { s with watchdog := .sampled tickMs } := by
  simp only [System.fire, h]

theorem fire_watchdogCopy {s : System} {tickMs now : UInt32} (h : s.watchdog = .sampled now) :
    s.fire tickMs .watchdogCopy =
      some { s with watchdog := if s.ctx.heartbeats.stale now then .stale now else .idle } := by
  simp only [System.fire, h]

theorem fire_watchdogReport {s : System} {tickMs now : UInt32} (h : s.watchdog = .stale now) :
    s.fire tickMs .watchdogReport =
      some { s with ctx := s.ctx.watchdogSection now, watchdog := .idle } := by
  simp only [System.fire, h]

theorem step_stale {now : UInt32} (hp : (a.progress .watchdog).stage = .running)
    (hnow : a.sys.watchdog = .stale now) (hwarned : a.warned = false) :
    a.step .stale = some { a.print .watchdog .error staleHeartbeat with warned := true } := by
  simp only [Simulator.step, hnow]
  exact if_pos ⟨hp, hwarned⟩

theorem wp_reportStale {Q : Locals WatchdogVars → Progress × Own .watchdog → Prop}
    {l : Locals WatchdogVars} {o : Own .watchdog} (hp : p.stage = .running)
    (ho : o = (if l.vars.stale then .stale l.vars.now else .idle, false))
    (h : ∀ p' l', p'.stage = .running → Q l' (p', (.idle, false))) :
    Outlined argv .watchdog reportStale Q l (p, o) := by
  subst ho
  refine outlined_branch (fun hstale ↦ ?_) fun hfresh ↦ ?_
  · rw [if_pos hstale]
    refine outlined_seq (wp_logMsg rfl .stale fun nowMs hle a ha ho ↦ ?_)
    obtain ⟨hnow, hwarned⟩ := Prod.mk.inj ho
    refine ⟨_, step_stale (ha ▸ hp) hnow hwarned, ?_, ?_⟩
    · refine ⟨rfl, rfl, rfl, rfl, rfl, fun u hu ↦ ⟨rfl, ?_⟩, rfl, rfl⟩
      cases u <;> first | rfl | exact absurd rfl hu
    · intro e m
      refine simulates_act (x := .watchdogReport) (ha ▸ hp) nofun le_rfl rfl rfl rfl ?_
      intro b hc ho
      obtain ⟨hnow', hwarned'⟩ := Prod.mk.inj ho
      refine ⟨hwarned', _, fire_watchdogReport (hnow'.trans hnow), ?_, hc.wire, fun dueMs ↦ ?_⟩
      · simp only [update_self, hc.ctx]
        rfl
      · exact h _ _ (ha ▸ hp)
  · rw [if_neg (Bool.not_eq_true _ |>.mpr hfresh)]
    exact h _ _ hp

theorem wp_taskWatchdogMain (l : Locals WatchdogVars) (hp : p.stage = .fresh) :
    Outlined argv .watchdog taskWatchdogMain (fun _ x ↦ x.1.stage = .exited) l
      (p, .idle, false) := by
  refine outlined_seq (wp_greet rfl rfl hp nofun fun readMs l' _ hle ↦ ?_)
  refine outlined_seq (wp_osalTaskDelayMs (by decide) fun nowMs l' _ _ hdue ↦ ?_)
  refine outlined_loop (fun _ x ↦ Due x.1 ∧ x.2 = (.idle, false)) ⟨⟨rfl, hdue⟩, rfl⟩ ?_ ?_
  · rintro l ⟨p, _⟩ ⟨hd, rfl⟩ nowMs e m r hr
    simp only [clocked, Option.ite_none_right_eq_some, Option.some.injEq] at hr
    obtain ⟨⟨hn, _⟩, rfl⟩ := hr
    refine simulates_act (x := .watchdogClock) hd.running (fun _ ↦ hd.due) hn rfl rfl rfl ?_
    intro a hc ho
    obtain ⟨hnow, hwarned⟩ := Prod.mk.inj ho
    refine ⟨rfl, _, fire_watchdogClock hnow, hc.ctx_eq, hc.wire, fun dueMs e m ↦ ?_⟩
    refine simulates_act (x := .watchdogCopy) hd.running nofun le_rfl rfl rfl rfl ?_
    intro b hc ho
    obtain ⟨hnow', hwarned'⟩ := Prod.mk.inj ho
    refine ⟨rfl, _, fire_watchdogCopy hnow', ?_, hc.wire, fun dueMs ↦ wp_setVars ?_⟩
    · simp only [update_self, hc.ctx]
      rfl
    · refine outlined_seq (wp_reportStale hd.running ?_ fun p' l' hp' ↦ ?_)
      · simp only [update_self, hc.ctx]
        exact congrArg (Prod.mk _) (hwarned'.trans hwarned)
      · exact wp_osalTaskDelayMs (by decide) fun nowMs l'' _ _ hdue ↦ ⟨⟨hp', hdue⟩, rfl⟩
  · rintro l ⟨p, _⟩ e m ⟨hd, rfl⟩ he
    refine simulates_exit nofun rfl hd.running he ?_ fun _ _ ↦ id
    intro a ho
    exact decide_eq_true (Prod.mk.inj ho).1

structure IsOwn (frame : CanFrame) : Prop where
  id_ne : frame.id ≠ canIdChargeCommand
  dlc_le : ¬ frame.dlc > UInt8.ofNat canMaxDlc

theorem isOwn_packStatus (s : BmsStatus) : IsOwn (packStatus s) where
  id_ne := show canIdBmsStatus ≠ canIdChargeCommand by decide
  dlc_le := show ¬ (6 : UInt8) > UInt8.ofNat canMaxDlc by decide

theorem isOwn_packCellVoltages (v : CellVoltages) : IsOwn (packCellVoltages v) where
  id_ne := show canIdCellVoltages ≠ canIdChargeCommand by decide
  dlc_le := show ¬ (10 : UInt8) > UInt8.ofNat canMaxDlc by decide

theorem isOwn_packFault (r : FaultReport) : IsOwn (packFault r) where
  id_ne := show canIdFaultReport ≠ canIdChargeCommand by decide
  dlc_le := show ¬ (3 : UInt8) > UInt8.ofNat canMaxDlc by decide

/-- The subscriber table is not the simulator's business. -/
theorem Simulator.Couples.congr (hc : Couples argv e m a) (hctx : m' .ctx = m .ctx)
    (hcell : m' .cellModel = m .cellModel) (hwire : m' .wire = m .wire)
    (hconsole : m' .console = m .console) : Couples argv e m' a :=
  ⟨hctx.trans hc.ctx, hcell ▸ hc.cell, hwire ▸ hc.wire, hconsole.trans hc.console,
    hc.shutdown, hc.clock, hc.read, hc.due⟩

section Can

variable {Q : Locals CanVars → Progress × Own .can → Prop} {l : Locals CanVars}
  {o : Own .can}

def CanVars.snapshot (v : CanVars) : Snapshot where
  status := v.status
  reading := v.reading
  faults := v.faults
  severity := v.severity

theorem wp_canHalSubscribe (cb : Callback)
    (h : ∀ l', Q l' (p, o)) : Outlined argv .can (canHalSubscribe cb) Q l (p, o) := by
  intro e m
  refine .stay (fun a hc ↦ hc.congr rfl rfl rfl rfl) (outlined_branch (fun _ ↦ h _) fun _ ↦ ?_)
  intro e m
  exact .stay (fun a hc ↦ hc.congr rfl rfl rfl rfl) (h _)

/-- No callback takes a frame of the node itself for a request. -/
theorem wp_deliver (hframe : IsOwn l.vars.frame) (is : List (Fin VirtualBus.maxSubscribers))
    (h : Q l (p, o)) : Outlined argv .can (deliver is) Q l (p, o) := by
  induction is with
  | nil => exact h
  | cons i is ih =>
    refine outlined_branch (fun _ ↦ outlined_branch (fun hcmd ↦ ?_) fun _ ↦ ih) fun _ ↦ ih
    simp [unpackChargeCommand, hframe.id_ne] at hcmd

theorem wp_canHalSend {o' : Own .can} (hp : p.stage = .running) (hframe : IsOwn l.vars.frame)
    (hstep : o.step (.send true) = some o') (hbus : o'.bus = ⟨l.vars.frame, true⟩ :: o.bus)
    (h : ∀ dueMs l', l'.vars.snapshot = l.vars.snapshot → l'.vars.lastFaults = l.vars.lastFaults →
      Q l' ({ p with dueMs := dueMs }, o')) : Outlined argv .can canHalSend Q l (p, o) := by
  refine outlined_branch (fun hdlc ↦ absurd (of_decide_eq_true hdlc) hframe.dlc_le) fun _ ↦ ?_
  intro e m
  refine simulates_act (x := .canSend true) hp nofun le_rfl rfl rfl rfl ?_
  rintro a hc rfl
  have hfire : a.sys.fire (tick e.clockMs) (.canSend true) = some { a.sys with can := o' } :=
    congrArg (Option.map _) hstep
  refine ⟨rfl, _, hfire, hc.ctx_eq, ?_, fun dueMs ↦ ?_⟩
  · simp only [update_self, hc.wire, hbus]
    rfl
  · intro e m
    refine .stay (fun a hc ↦ hc.congr rfl rfl rfl rfl) (wp_deliver ?_ _ ?_)
    · exact hframe
    · exact h _ _ rfl rfl

theorem wp_broadcast {snap : Snapshot} (hp : p.stage = .running) (hsnap : l.vars.snapshot = snap)
    (hpc : o.pc = .status snap) (hlast : o.lastFaults = l.vars.lastFaults)
    (h : ∀ p' l' o', p'.stage = .running → o'.pc = .idle → o'.lastFaults = l'.vars.lastFaults →
      Q l' (p', o')) : Outlined argv .can broadcast Q l (p, o) := by
  obtain ⟨last, _, bus⟩ := o
  subst hpc
  have hframe (f : Snapshot → CanFrame) {v : CanVars} (hv : v.snapshot = snap) (bus : List Sent) :
      (⟨f snap, true⟩ :: bus : List Sent) = ⟨f v.snapshot, true⟩ :: bus := by rw [hv]
  refine wp_setVars (outlined_seq (wp_canHalSend hp (isOwn_packStatus _) rfl
    (hframe Snapshot.statusFrame hsnap _) fun _ l₁ hsnap₁ hlast₁ ↦ ?_))
  replace hsnap₁ := hsnap₁.trans hsnap
  refine wp_setVars (outlined_seq (wp_canHalSend hp (isOwn_packCellVoltages _) rfl
    (hframe Snapshot.cellsFrame hsnap₁ _) fun _ l₂ hsnap₂ hlast₂ ↦ ?_))
  replace hsnap₂ := hsnap₂.trans hsnap₁
  have hlast' : last = l₂.vars.lastFaults := hlast.trans (hlast₂.trans hlast₁).symm
  have hfaults : snap.faults = l₂.vars.faults := (congrArg Snapshot.faults hsnap₂).symm
  refine outlined_branch (fun hne ↦ ?_) fun heq ↦ ?_
  · have hne : snap.faults ≠ last := by
      rw [hfaults, hlast']
      exact of_decide_eq_true hne
    dsimp only
    rw [if_pos hne]
    refine wp_setVars (outlined_seq (wp_canHalSend hp (isOwn_packFault _) rfl
      (hframe Snapshot.faultFrame hsnap₂ _) fun _ l₃ hsnap₃ _ ↦ wp_setVars ?_))
    exact h _ _ _ hp rfl (congrArg Snapshot.faults (hsnap₃.trans hsnap₂)).symm
  · have heq : snap.faults = last := by
      rw [hfaults, hlast']
      exact not_not.mp (of_decide_eq_false heq)
    exact h _ _ _ hp (if_neg (not_not.mpr heq)) hlast'

theorem fire_canSection {s : System} {tickMs : UInt32} (h : s.can.pc = .idle) :
    s.fire tickMs .canSection =
      some { s with can := { s.can with pc := .status s.ctx.snapshot } } := by
  simp only [System.fire, CanTask.step, h]
  rfl

theorem wp_taskCanMain (l : Locals CanVars) (hp : p.stage = .fresh) (hdue : p.dueMs ≤ p.readMs) :
    Outlined argv .can taskCanMain (fun _ x ↦ x.1.stage = .exited) l (p, .init) := by
  refine outlined_seq (wp_canHalSubscribe _ fun l ↦ ?_)
  refine outlined_seq (wp_greet rfl rfl hp nofun fun readMs l' _ hle ↦ wp_setVars ?_)
  refine outlined_loop (fun l x ↦ Due x.1 ∧ x.2.pc = .idle ∧ x.2.lastFaults = l.vars.lastFaults)
    ⟨⟨rfl, hdue.trans hle⟩, rfl, rfl⟩ ?_ ?_
  · rintro l ⟨p, _⟩ ⟨hd, hpc, hlast⟩ e m
    refine simulates_act (x := .canSection) hd.running (fun _ ↦ hd.due) le_rfl rfl rfl rfl ?_
    rintro a hc rfl
    refine ⟨rfl, _, fire_canSection hpc, ?_, hc.wire, fun dueMs ↦ ?_⟩
    · simp only [update_self, hc.ctx]
      rfl
    · refine outlined_seq (wp_broadcast hd.running ?_ rfl hlast fun p' l' o' hp' hpc' hlast' ↦ ?_)
      · simp only [update_self, hc.ctx]
        rfl
      · exact wp_osalTaskDelayMs (by decide) fun nowMs l'' hl'' _ hdue ↦
          ⟨⟨hp', hdue⟩, hpc', hl'' ▸ hlast'⟩
  · rintro l ⟨p, _⟩ e m ⟨hd, hpc, _⟩ he
    refine simulates_exit nofun rfl hd.running he ?_ fun _ _ ↦ id
    rintro a rfl
    exact decide_eq_true hpc

end Can

section Main

variable {Q : Locals MainVars → Progress × Own .main → Prop} {l : Locals MainVars}
  {k : Code sig (Locals MainVars)} {joined : Own .main}

theorem wp_osalRequestShutdown (hp : p.stage = .running)
    (h : Outlined argv .main k Q l ({ p with stage := .leaving }, joined)) :
    Outlined argv .main (osalRequestShutdown k) Q l (p, joined) := by
  intro _ e m r hr
  obtain rfl := Option.some.inj hr
  refine simulates_one fun a hc ha ho ↦ ?_
  have hs := hc.setStage .main .leaving
  refine ⟨.request, _, if_pos (ha ▸ hp), ⟨hs.ctx, hs.cell, hs.wire, hs.console, rfl, hs.clock,
    hs.read, hs.due⟩, fun u hu ↦ ⟨setProgress_ne _ _ hu, ?_⟩, ?_⟩
  · cases u <;> rfl
  · have hprogress : (a.setStage .main .leaving).progress .main = { p with stage := .leaving } := by
      rw [Simulator.setStage, setProgress_self, ha]
    have hown : (a.setStage .main .leaving).own .main = joined := ho
    change Outlined argv .main k Q l ((a.setStage .main .leaving).progress .main,
      (a.setStage .main .leaving).own .main)
    rw [hprogress, hown]
    exact h

theorem wp_join (u : Thread) (hu : u ≠ .main) (hp : p.stage = .leaving)
    (h : Outlined argv .main k Q l (p, u :: joined)) :
    Outlined argv .main (.join u k) Q l (p, joined) := by
  intro e m
  refine simulates_one fun a hc ha ho ↦ ?_
  obtain ⟨hc, hpost⟩ := hc
  refine ⟨.join u, _, if_pos ⟨ha ▸ hp, hu, hpost⟩, ⟨hc.ctx, hc.cell, hc.wire, hc.console,
    hc.shutdown, hc.clock, hc.read, hc.due⟩, fun v hv ↦ ⟨rfl, ?_⟩, ?_⟩
  · cases v <;> first | rfl | exact absurd rfl hv
  · change Outlined argv .main k Q l (a.progress .main, u :: a.own .main)
    rw [ha, ho]
    exact h

theorem Simulator.Couples.final (hc : Couples argv e m a) :
    (finalStatus (m .ctx).1.status (m .ctx).1.faultMgr.activeFaults :: "\n=== Final status ===\n" ::
        (m .console).1,
      (⟨.main, false, finalStatus (m .ctx).1.status (m .ctx).1.faultMgr.activeFaults ::
        "\n=== Final status ===\n" :: (m .console).1⟩ : Commit sig .console) :: (m .console).2) =
    (consoleOf argv (.final a.sys.ctx.status a.sys.ctx.faultMgr.activeFaults :: a.entries),
      showing argv (.final a.sys.ctx.status a.sys.ctx.faultMgr.activeFaults :: a.entries)) := by
  simp only [hc.ctx, hc.console]
  rfl

theorem wp_runTasks (l : Locals MainVars) (hp : p.stage = .fresh) :
    Outlined argv .main runTasks (fun _ x ↦ x.1.stage = .exited) l (p, []) := by
  refine outlined_seq (wp_osalTaskDelayMs (by decide) fun nowMs l _ _ hdue ↦ ?_)
  refine outlined_seq (wp_greet rfl rfl hp (fun _ ↦ hdue) fun readMs l _ _ ↦ ?_)
  refine wp_osalRequestShutdown rfl ?_
  refine wp_join .sensor nofun rfl (wp_join .soc nofun rfl (wp_join .fault nofun rfl
    (wp_join .can nofun rfl (wp_join .watchdog nofun rfl ?_))))
  intro e m
  refine simulates_one fun a hc ha ho ↦ ?_
  have hs := hc.setStage .main .exited
  have hjoined : ∀ t, t ≠ .main → t ∈ a.joined := by
    intro t ht
    rw [show a.joined = _ from ho]
    cases t <;> simp_all
  refine ⟨.finalStatus, _, if_pos ⟨ha ▸ rfl, hjoined⟩, ⟨?_, ?_, ?_, ?_, hs.shutdown, hs.clock,
    hs.read, hs.due⟩, fun u hu ↦ ⟨setProgress_ne _ _ hu, ?_⟩, fun e m ↦ ?_⟩
  · exact hc.ctx
  · exact hc.cell
  · exact hc.wire
  · exact hc.final
  · cases u <;> rfl
  · refine .stay (fun a hc ↦ hc.congr rfl rfl rfl rfl) ?_
    exact congrArg Progress.stage (setProgress_self ..)

end Main

end BmsFirmware.Firmware
