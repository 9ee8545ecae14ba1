import BmsFirmware.FirmwareRefinement
import BmsFirmware.Transcript

namespace BmsFirmware.Firmware

open Config Lib.Tick Lib.Threads Lib.History

/-- The firmware is in `s`, past the start-up by `main` from `startMs` on, and no mutex
is held. -/
structure Reaches (argv : List String) (startMs : ℕ) (s : State sig) : Prop where
  run : ∃ locals ctx cell table h, Run (step (program argv locals))
    (start (program argv locals) ⟨startMs, false⟩ (memory ctx cell table)) h s
  rest : ∀ m t, s.locks m ≠ .held t
  created : s.threads .sensor ≠ .unborn

/-- The moves `h` have taken the firmware there. -/
structure Ran (argv : List String) (startMs : ℕ) (g : Leftovers) (h : List (Move sig))
    (s : State sig) : Prop where
  run : Run (step (program argv g.locals))
    (start (program argv g.locals) ⟨startMs, false⟩ g.memory) h s
  rest : ∀ m t, s.locks m ≠ .held t
  created : s.threads .sensor ≠ .unborn

variable {argv : List String} {startMs : ℕ} {g : Leftovers} {h : List (Move sig)} {s : State sig}

theorem Reaches.ran (hs : Reaches argv startMs s) : ∃ g h, Ran argv startMs g h s := by
  obtain ⟨locals, ctx, cell, table, h, hr⟩ := hs.run
  exact ⟨⟨locals, ctx, cell, table⟩, h, hr, hs.rest, hs.created⟩

theorem Ran.simulated (hs : Ran argv startMs g h s) : ∃ k a,
    Run Simulator.step (.start startMs (scenario argv)) k a ∧
      Simulator.Couples argv s.env (fun v ↦ (s.mem v, commitsTo v argv startMs g h)) a := by
  rcases run_simulated hs.run hs.rest with hboot | ⟨k, a, hk, hc, _⟩
  · exact absurd (hboot.alone .sensor (show Thread.sensor ≠ .main by decide)) hs.created
  · exact ⟨k, a, hk, hc⟩

section Couples

variable {e : Env} {m : ∀ v, sig.Val v} {c : ∀ v, List (Commit sig v)} {a : Simulator}

theorem Simulator.Couples.mem_ctx (hc : Couples argv e (fun v ↦ (m v, c v)) a) :
    m .ctx = a.sys.ctx :=
  congrArg Prod.fst hc.ctx

theorem Simulator.Couples.mem_wire (hc : Couples argv e (fun v ↦ (m v, c v)) a) :
    m .wire = a.sys.can.bus.map (·.frame) :=
  hc.wire

theorem Simulator.Couples.commits_ctx (hc : Couples argv e (fun v ↦ (m v, c v)) a) :
    c .ctx = a.commits :=
  congrArg Prod.snd hc.ctx

theorem Simulator.Couples.commits_console (hc : Couples argv e (fun v ↦ (m v, c v)) a) :
    c .console = showing argv a.entries :=
  congrArg Prod.snd hc.console

end Couples

/-- The length of the console behind these commits; the first two pieces are those that
`main` prints before it creates the tasks. -/
def consoleLength : List (Commit sig .console) → ℕ
  | [] => 2
  | x :: _ => x.value.length

/-- Who has committed to the console, and what has come on it, the latest first. -/
def prints : List (Commit sig .console) → List (Thread × List String)
  | [] => []
  | x :: past => (x.thread, x.value.take (x.value.length - consoleLength past)) :: prints past

theorem consoleLength_showing (argv : List String) (entries : List Entry) :
    consoleLength (showing argv entries) = (consoleOf argv entries).length := by
  cases entries <;> rfl

theorem prints_showing (argv : List String) (entries : List Entry) :
    prints (showing argv entries) = entries.map fun x ↦ (x.thread, x.pieces) := by
  induction entries with
  | nil => rfl
  | cons x entries ih =>
    have hcons : consoleOf argv (x :: entries) = x.pieces ++ consoleOf argv entries := by
      simp [consoleOf]
    rw [showing, prints, List.map_cons, ih, consoleLength_showing, hcons, List.length_append,
      Nat.add_sub_cancel, List.take_left]

/-- The entries are what these commits have brought on the console, one each, dated in
order for every thread and by times that the clock has shown. -/
structure Shown (argv : List String) (startMs clockMs : ℕ) (commits : List (Commit sig .console))
    (console : List String) (entries : List Entry) : Prop where
  console : console = consoleOf argv entries
  prints : prints commits = entries.map fun x ↦ (x.thread, x.pieces)
  bounds : ∀ t, ∀ l ∈ linesOf t entries, startMs ≤ l.timeMs ∧ l.timeMs ≤ clockMs
  sorted : ∀ t, ((linesOf t entries).map (·.timeMs)).IsChain fun later earlier ↦ earlier ≤ later

theorem Simulator.Couples.shown {k : List SimEvent} {a : Simulator}
    {c : ∀ v, List (Commit sig v)}
    (hc : Couples argv s.env (fun v ↦ (s.mem v, c v)) a)
    (hr : Run Simulator.step (.start startMs (scenario argv)) k a) :
    Shown argv startMs s.env.clockMs (c .console) (s.mem .console) a.entries where
  console := congrArg Prod.fst hc.console
  prints := by rw [hc.commits_console, prints_showing]
  bounds := fun t l hl ↦
    have hl' := (run_dated t hr).bounds l hl
    ⟨hl'.1, hl'.2.trans (hc.read t)⟩
  sorted := fun t ↦ (run_dated t hr).sorted

def firstIterations : List (Move sig) :=
  List.replicate 71 ⟨.can, 5⟩ ++ List.replicate 25 ⟨.fault, 4⟩ ++ List.replicate 15 ⟨.soc, 3⟩ ++
    List.replicate 14 ⟨.sensor, 2⟩ ++ List.replicate 7 ⟨.watchdog, 2⟩ ++
    List.replicate 15 ⟨.main, 1⟩

def toTheEnd : List (Move sig) :=
  List.replicate 15 ⟨.main, 8200⟩ ++ List.replicate 8 ⟨.watchdog, 8200⟩ ++
    List.replicate 8 ⟨.can, 8100⟩ ++ List.replicate 8 ⟨.fault, 8100⟩ ++
    List.replicate 8 ⟨.soc, 8100⟩ ++ List.replicate 8 ⟨.sensor, 8100⟩ ++
    List.replicate 8 ⟨.main, 8100⟩ ++ firstIterations

def overheating : List String := ["bms_sim", "overtemp"]

def settled (s : State sig) : Bool :=
  (match s.threads .sensor with
    | .unborn => false
    | _ => true) &&
  [Mutex.ctx, .log, .bus].all fun m ↦
    match s.locks m with
    | .held _ => false
    | _ => true

def blank : Leftovers :=
  ⟨zeroLocals, .init, .init, ⟨Vector.replicate VirtualBus.maxSubscribers none, 0⟩⟩

theorem ran_of_settled (hr : Run (step (program argv zeroLocals)) (cold argv) h s)
    (hs : settled s = true) : Ran argv 0 blank h s := by
  obtain ⟨hborn, hlocks⟩ := Bool.and_eq_true_iff.mp hs
  refine ⟨hr, fun m t hm ↦ ?_, fun hu ↦ ?_⟩
  · have hfree := List.all_eq_true.mp hlocks m (by cases m <;> decide)
    simp [hm] at hfree
  · simp [hu] at hborn

theorem reaches_of_settled (hr : Run (step (program argv zeroLocals)) (cold argv) h s)
    (hs : settled s = true) : Reaches argv 0 s :=
  have hran := ran_of_settled hr hs
  ⟨⟨_, _, _, _, h, hran.run⟩, hran.rest, hran.created⟩

theorem overheating_first : ∃ s,
    Run (step (program overheating zeroLocals)) (cold overheating) firstIterations s ∧
      settled s = true ∧ s.env.clockMs = 5 := by
  have hrun : ∃ s, Run (step (program overheating zeroLocals)) (cold overheating)
      firstIterations s ∧ (settled s, s.env.clockMs) = (true, 5) :=
    exists_run (fun s : State sig ↦ (settled s, s.env.clockMs)) (by decide +kernel)
  obtain ⟨s, hr, hs⟩ := hrun
  exact ⟨s, hr, Prod.mk.inj hs⟩

/-- What the sections of the threads leave in the context is what the tasks leave there in
some order of their atomic actions. -/
theorem Ran.refines (hs : Ran argv startMs g h s) : ∃ hist sys,
    Run System.step (.start startMs) hist sys ∧
      commitsTo .ctx argv startMs g h = sections startMs hist ∧ s.mem .ctx = sys.ctx ∧
      s.mem .wire = sys.can.bus.map (·.frame) ∧ (∀ c ∈ sys.can.bus, c.ok) ∧
      sys.clockMs ≤ s.env.clockMs := by
  obtain ⟨k, a, hr, hc⟩ := hs.simulated
  refine ⟨_, _, Simulator.run_sys hr, ?_, hc.mem_ctx, hc.mem_wire, Simulator.run_sent hr,
    hc.clock⟩
  rw [hc.commits_ctx, Simulator.run_commits hr]

/-- The threads of the firmware, in whatever order they run, do no more to the context and
to the bus than the tasks in some order of their atomic actions. -/
theorem firmware_refines (hs : Reaches argv startMs s) : ∃ hist sys,
    Run System.step (.start startMs) hist sys ∧ s.mem .ctx = sys.ctx ∧
      s.mem .wire = sys.can.bus.map (·.frame) ∧ (∀ c ∈ sys.can.bus, c.ok) ∧
      sys.clockMs ≤ s.env.clockMs := by
  obtain ⟨g, h, hran⟩ := hs.ran
  obtain ⟨hist, sys, hr, _, hsame⟩ := hran.refines
  exact ⟨hist, sys, hr, hsame⟩

theorem firmware_refines_first : ∃ s hist sys,
    Run (step (program overheating zeroLocals)) (cold overheating) firstIterations s ∧
      Run System.step (.start 0) hist sys ∧ s.mem .ctx = sys.ctx ∧
      s.mem .wire = sys.can.bus.map (·.frame) := by
  obtain ⟨s, hr, hs, _⟩ := overheating_first
  obtain ⟨hist, sys, hrun, hctx, hwire, _⟩ := firmware_refines (reaches_of_settled hr hs)
  exact ⟨s, hist, sys, hr, hrun, hctx, hwire⟩

/-- No reading of the cell model gets lost on its way to the context, or comes twice. -/
theorem firmware_readings (hs : Ran argv startMs g h s) : ∃ n,
    readings (commitsTo .ctx argv startMs g h) =
        ((List.range n).map fun i ↦ (modelAfter (scenario argv) (i + 1)).reading).reverse ∧
      (s.mem .ctx).latestReading = (readings (commitsTo .ctx argv startMs g h)).headD
        AppContext.init.latestReading ∧
      (s.mem .cellModel = modelAfter (scenario argv) n ∨
        s.mem .cellModel = modelAfter (scenario argv) (n + 1)) := by
  obtain ⟨k, a, hr, hc⟩ := hs.simulated
  have hsampled := Simulator.run_sampled hr
  rw [hc.commits_ctx, hc.mem_ctx]
  refine ⟨_, hsampled.published, hsampled.latest, ?_⟩
  have hcell := hc.cell.trans hsampled.cell
  split_ifs at hcell
  · exact .inr hcell
  · exact .inl hcell

theorem firmware_readings_first : ∃ s n,
    Run (step (program overheating zeroLocals)) (cold overheating) firstIterations s ∧
      readings (commitsTo .ctx overheating 0 blank firstIterations) = ((List.range n).map
        fun i ↦ (modelAfter (scenario overheating) (i + 1)).reading).reverse := by
  obtain ⟨s, hr, hs, _⟩ := overheating_first
  obtain ⟨n, hread, _⟩ := firmware_readings (ran_of_settled hr hs)
  exact ⟨s, n, hr, hread⟩

/-- What a task has printed of its story at its stage `x`; before the end the line for the
latest change of state may be still to come, that of the watchdog comes before its report. -/
def Tells (commits : List (Commit sig .ctx)) (t : Thread) (x : Stage)
    (remarks : List (LogLevel × String)) : Prop :=
  match x, t with
  | .fresh, _ => remarks = []
  | .exited, t => remarks = story commits t
  | _, .fault => remarks = story commits .fault ∨ remarks = (story commits .fault).tail
  | _, .watchdog => remarks = story commits .watchdog ∨
    remarks = (.error, staleHeartbeat) :: story commits .watchdog
  | _, _ => remarks = []

theorem Simulator.run_tells {k : List SimEvent} {a : Simulator}
    (hr : Run Simulator.step (.start startMs (scenario argv)) k a) (t : Thread) :
    Tells a.commits t (a.progress t).stage (a.remarks t) := by
  have hfault : a.remarks .fault = story a.commits .fault ∨
      a.remarks .fault = (story a.commits .fault).tail := by
    simp only [remarks, loggedChanges, (run_journal hr).logged.seen, story]
    split_ifs
    · exact .inr (List.map_tail ..)
    · exact .inl rfl
  have hwatchdog : a.remarks .watchdog = story a.commits .watchdog ∨
      a.remarks .watchdog = (.error, staleHeartbeat) :: story a.commits .watchdog := by
    simp only [remarks, story]
    cases a.warned with
    | true => exact .inr rfl
    | false => exact .inl rfl
  cases hx : (a.progress t).stage with
  | fresh => exact (run_journal hr).fresh t hx
  | exited => exact remarks_exited hr hx
  | running | leaving =>
    cases t with
    | fault => exact hfault
    | watchdog => exact hwatchdog
    | _ => rfl

/-- A task says goodbye only below the announcement of the end, which comes with or after
the end of the simulation's duration. -/
theorem firmware_orderly (hs : Ran argv startMs g h s) : ∃ entries,
    Shown argv startMs s.env.clockMs (commitsTo .console argv startMs g h) (s.mem .console)
        entries ∧
      ∀ t n es, .line t n .info taskExiting :: es <:+ entries → ∃ n',
        startMs + simDurationMs.toNat ≤ n' ∧ .line .main n' .info Thread.main.greeting ∈ es := by
  obtain ⟨k, a, hr, hc⟩ := hs.simulated
  exact ⟨a.entries, hc.shown hr,
    fun t n es hsuf ↦ (Simulator.run_orderly hr).exits _ es hsuf t n rfl⟩

theorem firmware_orderly_first : ∃ s entries,
    Run (step (program overheating zeroLocals)) (cold overheating) firstIterations s ∧
      Shown overheating 0 5 (commitsTo .console overheating 0 blank firstIterations)
        (s.mem .console) entries ∧
      ∀ t n es, .line t n .info taskExiting :: es <:+ entries → ∃ n',
        8000 ≤ n' ∧ .line .main n' .info Thread.main.greeting ∈ es := by
  obtain ⟨s, hr, hs, hclock⟩ := overheating_first
  obtain ⟨entries, hshown, hexits⟩ := firmware_orderly (ran_of_settled hr hs)
  exact ⟨s, entries, hr, hclock ▸ hshown, hexits⟩

/-- When the firmware has finished, its console shows the whole story of every task, and at
its end the status and the faults that the context still holds. -/
theorem firmware_final_status
    (hr : Run (step (program argv g.locals))
      (start (program argv g.locals) ⟨startMs, false⟩ g.memory) h s)
    (hfin : Disciplined.Finished (program argv g.locals) s) : ∃ entries,
    s.mem .console =
        finalStatus (s.mem .ctx).status (s.mem .ctx).faultMgr.activeFaults ::
          "\n=== Final status ===\n" :: consoleOf argv entries ∧
      Shown argv startMs s.env.clockMs (commitsTo .console argv startMs g h) (s.mem .console)
        (.final (s.mem .ctx).status (s.mem .ctx).faultMgr.activeFaults :: entries) ∧
      ∀ t, textsOf t entries =
        closing t .exited ++ story (commitsTo .ctx argv startMs g h) t ++ opening t .exited := by
  obtain ⟨l, hroot⟩ := hfin.root
  have hrest : ∀ m t, s.locks m ≠ .held t := fun m t ↦ by simp [hfin.destroyed m]
  rcases run_simulated hr hrest with ⟨_, k, l', hrun, hne⟩ | ⟨k, a, hk, hc, hdone⟩
  · obtain ⟨rfl, -⟩ := ThreadState.running.inj (hroot.symm.trans hrun)
    exact absurd rfl hne
  · obtain ⟨hall, es, hes⟩ := (Simulator.run_settled hk).final (hdone .main l hroot)
    have hshown := hc.shown hk
    rw [hc.mem_ctx, hc.commits_ctx]
    rw [hes] at hshown
    refine ⟨es, hshown.console, hshown, fun t ↦ ?_⟩
    have htexts := (Simulator.run_journal hk).texts t
    rwa [hall t, Simulator.remarks_exited hk (hall t), hes, textsOf_final] at htexts

def mainReturned (s : State sig) : Bool :=
  match s.threads .main with
  | .running .done _ => true
  | _ => false

theorem overheating_over : ∃ s,
    Run (step (program overheating zeroLocals)) (cold overheating) toTheEnd s ∧
      Disciplined.Finished (program overheating zeroLocals) s := by
  have hrun : ∃ s, Run (step (program overheating zeroLocals)) (cold overheating) toTheEnd s ∧
      mainReturned s = true := exists_run mainReturned (by decide +kernel)
  obtain ⟨s, hr, hs⟩ := hrun
  obtain ⟨ph, hd⟩ := run_disciplined (program_checked overheating zeroLocals) hr
  unfold mainReturned at hs
  split at hs
  · exact ⟨s, hr, hd.finished ‹_›⟩
  · cases hs

theorem firmware_final_status_over : ∃ s entries,
    Run (step (program overheating zeroLocals)) (cold overheating) toTheEnd s ∧
      s.mem .console =
        finalStatus (s.mem .ctx).status (s.mem .ctx).faultMgr.activeFaults ::
          "\n=== Final status ===\n" :: consoleOf overheating entries ∧
      ∀ t, textsOf t entries = closing t .exited ++
        story (commitsTo .ctx overheating 0 blank toTheEnd) t ++ opening t .exited := by
  obtain ⟨s, hr, hfin⟩ := overheating_over
  have hrun : Run (step (program overheating blank.locals))
      (start (program overheating blank.locals) ⟨0, false⟩ blank.memory) toTheEnd s := hr
  obtain ⟨entries, hconsole, _, htexts⟩ := firmware_final_status hrun hfin
  exact ⟨s, entries, hr, hconsole, htexts⟩

end BmsFirmware.Firmware
