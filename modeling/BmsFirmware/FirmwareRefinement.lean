import BmsFirmware.FirmwareOutline
import BmsFirmware.FirmwareSafety

namespace BmsFirmware.Firmware

open Config Function Lib.Tick Lib.Threads Lib.History

def scenario (argv : List String) : CellScenario := parseScenario (some (scenarioName argv))

structure Leftovers where
  locals : ∀ t : Thread, Locals t.Vars
  ctx : AppContext
  cell : CellModel
  table : Subscribers

def Leftovers.memory (g : Leftovers) : ∀ v : Global, v.Val := Firmware.memory g.ctx g.cell g.table

variable {argv : List String} {g : Leftovers} {startMs : ℕ}

theorem recorded_checked (argv : List String) (locals : ∀ t : Thread, Locals t.Vars) :
    Checked (program argv locals).recorded discipline.recorded where
  root := by rfl
  threads := by
    intro t ht
    cases t with
    | main => exact absurd rfl ht
    | _ => rfl

theorem wp_body (t : Thread) (ht : t ≠ .main) (l : Locals t.Vars) :
    Outlined argv t (body argv t) (fun _ x ↦ x.1.stage = .exited) l
      ((machine argv).view t (.start startMs (scenario argv))) := by
  cases t with
  | main => exact absurd rfl ht
  | sensor => exact wp_taskSensorMain l rfl le_rfl
  | soc => exact wp_taskSocMain l rfl le_rfl
  | fault => exact wp_taskFaultMain l rfl le_rfl
  | can => exact wp_taskCanMain l rfl le_rfl
  | watchdog => exact wp_taskWatchdogMain l rfl

/-- `main` has initialised everything before it creates a task. -/
theorem boots : ∃ s₁ l, Boots (program argv g.locals).recorded
      (start (program argv g.locals).recorded ⟨startMs, false⟩ fun v ↦ (g.memory v, [])) s₁ ∧
    s₁.env = ⟨startMs, false⟩ ∧ s₁.mem .ctx = (AppContext.init, []) ∧
    s₁.mem .cellModel = (CellModel.init.setScenario (scenario argv), []) ∧
    s₁.mem .wire = ([], []) ∧
    s₁.mem .console = ([banner argv, "=== BMS Firmware Simulator ===\n"], []) ∧
    s₁.threads .main = .running (runTasks.record .main none) l := by
  have hcold := Boots.start (program argv g.locals).recorded ⟨startMs, false⟩
    fun v ↦ (g.memory v, [])
  have hlog := ((hcold.access rfl).access rfl).create rfl rfl
  have hbus := (hlog.create rfl rfl).access rfl
  have hctx := ((hbus.create rfl rfl).access rfl).access rfl
  exact ⟨_, _, hctx.access rfl, rfl, rfl, rfl, rfl, rfl, rfl⟩

theorem start_couples {e : Env} {m : ∀ v, sig.recorded.Val v} (he : e = ⟨startMs, false⟩)
    (hctx : m .ctx = (AppContext.init, []))
    (hcell : m .cellModel = (CellModel.init.setScenario (scenario argv), []))
    (hwire : m .wire = ([], []))
    (hconsole : m .console = ([banner argv, "=== BMS Firmware Simulator ===\n"], [])) :
    Simulator.Couples argv e m (.start startMs (scenario argv)) := by
  subst he
  refine ⟨hctx, congrArg Prod.fst hcell, congrArg Prod.fst hwire, hconsole, rfl, le_rfl,
    fun _ ↦ le_rfl, fun t ↦ ?_⟩
  refine Nat.add_le_add_left ?_ startMs
  cases t <;> decide

variable {h : List (Move sig)} {s : State sig}

/-- The commits of the threads in a run of the firmware, the latest first. -/
def commitsTo (v : Global) (argv : List String) (startMs : ℕ) (g : Leftovers)
    (h : List (Move sig)) : List (Commit sig v) :=
  commits (program argv g.locals) ⟨startMs, false⟩ g.memory h v

/-- In whatever order the threads run, the simulator can follow them. -/
theorem run_simulated
    (hr : Run (step (program argv g.locals))
      (start (program argv g.locals) ⟨startMs, false⟩ g.memory) h s)
    (hrest : ∀ m t, s.locks m ≠ .held t) :
    Booting (program argv g.locals) s ∨ ∃ k a,
      Run Simulator.step (.start startMs (scenario argv)) k a ∧
        Simulator.Couples argv s.env (fun v ↦ (s.mem v, commitsTo v argv startMs g h)) a ∧
        ∀ t l, s.threads t = .running .done l → (a.progress t).stage = .exited := by
  obtain ⟨s', hr', hs', hcommits⟩ := run_recorded hr
  have hmem : s'.mem = fun v ↦ (s.mem v, commitsTo v argv startMs g h) :=
    funext fun v ↦ Prod.ext (hs'.mem v) (hcommits v)
  obtain ⟨h', _, hleap⟩ := run_atomic (recorded_checked argv g.locals) hr'
    fun m t ↦ hs'.locks ▸ hrest m t
  obtain ⟨s₁, l, hboots, henv, hctx, hcell, hwire, hconsole, hmain⟩ := boots
  rcases hboots.forced.run hleap with hbooting | ⟨h₁, _, _, hr₁⟩
  · exact .inl (hs'.booting hbooting)
  · have hcouples := start_couples henv hctx hcell hwire hconsole
    have hfollows : Follows (program argv g.locals).recorded (machine argv) s₁
        (.start startMs (scenario argv)) := by
      refine ⟨hcouples, fun t k l' ht ↦ ?_, fun t ht ↦ ?_⟩
      · by_cases hm : t = .main
        · subst hm
          obtain ⟨rfl, rfl⟩ := ThreadState.running.inj (hmain.symm.trans ht)
          exact wp_runTasks _ rfl
        · exact absurd ((hboots.alone t hm).symm.trans ht) (by simp)
      · have hm : t ≠ .main := by
          rintro rfl
          exact absurd (hmain.symm.trans ht) (by simp)
        exact wp_body t hm _
    obtain ⟨k, a, hk, hf⟩ := run_follows hfollows hr₁
    refine .inr ⟨k, a, hk, hmem ▸ hs'.env ▸ hf.couples, fun t l ht ↦ ?_⟩
    obtain ⟨k', hk', hdone⟩ := hs'.running ht
    cases hdone
    exact hf.running t .done l hk'

end BmsFirmware.Firmware
