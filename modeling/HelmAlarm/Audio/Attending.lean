import HelmAlarm.Audio.Commands
import HelmAlarm.Audio.DeviceLoss

/-!
# What the worker comes to

The worker has nothing but the channel to wait for, so it can always take a step while
there is a command in it, and from one command to the next it takes nine steps at most:
it tells the caller, it may build a stream, clear the flag and note the time, it may
drop a stream. So every command is handled in so many steps for each that is before it,
whatever the callers, the callbacks and the clock do meanwhile and whatever the devices
answer: `command_is_handled`.

When the last clone of the player is dropped, the thread that drops it joins the worker.
The worker handles what is in the channel before the Shutdown, drops its stream and
exits: `worker_exits`.
-/

namespace HelmAlarm.Audio.CpalAudio

open HelmAlarm.Library

variable {cfg : CpalConfig} {p q : Player} {act : Act} {acts : List Act} {host : AudioHost} {k n : ℕ}

/-- The steps the worker takes at most until it exits, if it takes no command from the channel. -/
def Pc.left : Pc → ℕ
  | .exited => 0
  | .exit => 1
  | .recv _ => 2
  | .drop => 3
  | .check => 4
  | .start | .retried => 5
  | .clear | .initFailed => 6
  | .build | .init => 7
  | .retry => 8
  | .ack _ _ => 9
  | .handle _ => 10

/-- So many, if it takes the first `n` commands. -/
def Player.left (n : ℕ) (p : Player) : ℕ := 9 * (n - p.taken) + p.pc.left

/-- The worker is out of its loop. -/
def Pc.leaves : Pc → Bool
  | .exit | .exited => true
  | _ => false

/-- The worker exits when it has taken all commands, and no more can be sent. -/
def Drained (p : Player) : Prop := p.pc.leaves = true → p.closed = true ∧ p.sent.length ≤ p.taken

/-- It has no stream then. -/
def Quit (p : Player) : Prop := p.pc = .exited → p.stream = none

/-! ### The steps of the worker -/

/-- A step of the worker is one less, unless it waits and has taken what it was to take. -/
theorem Worked.left_lt (hw : Worked host p q) (hle : n ≤ p.sent.length)
    (hgo : ∀ since, p.pc = .recv since → p.taken < n ∨ p.closed = true ∧ n = p.sent.length) : q.left n < p.left n := by
  unfold Player.left
  cases hw with
  | moved hm =>
    cases hm with
    | timedOut hpc hempty hopen =>
      rcases hgo _ hpc with hlt | ⟨hclosed, -⟩
      · omega
      · rw [hopen] at hclosed
        cases hclosed
    | _ => simp_all only [Pc.left]; omega
  | timed hpc => rcases hpc with hpc | hpc <;> simp only [hpc, Pc.left] <;> omega
  | built hpc hb => rcases hpc with ⟨hpc, rfl⟩ | ⟨hpc, rfl⟩ <;> simp only [hpc, Pc.left] <;> omega
  | dropped hpc => rcases hpc with ⟨hpc, rfl⟩ | ⟨hpc, rfl⟩ <;> simp only [hpc, Pc.left] <;> omega
  | took hpc hlt =>
    have := hgo _ hpc
    simp only [hpc, Pc.left]
    omega
  | flagged hpc | cleared hpc | handled hpc hi | acked hpc => simp only [hpc, Pc.left]; omega

/-- Whoever else takes a step leaves it as it is. -/
theorem Stepped.left (h : Stepped p act q) (hwork : act.isWork = false) : q.left n = p.left n := by
  cases h with
  | worked => cases hwork
  | _ => rfl

/-- The worker waits for nothing but a command, a Shutdown or the time of a retry. -/
theorem exists_work (hI : Ordered p) (hpc : p.pc ≠ .exited)
    (hgo : ∀ since, p.pc = .recv since → p.taken < p.sent.length ∨ p.closed = true) (host : AudioHost) :
    ∃ q, step p (.work host) = some q := by
  apply Option.isSome_iff_exists.mp
  simp only [step, Player.work]
  split
  · split <;> rfl
  · rfl
  · rfl
  · split <;> rfl
  · rfl
  · rename_i since hrecv
    rcases hgo since hrecv with hlt | hclosed
    · rw [if_pos hlt]
      rfl
    · split
      · rfl
      · simp only [hclosed, Option.isSome_some]
  · rename_i i hhandle
    have hlt : i < p.sent.length := by
      have htaken := hI.taken
      rw [hI.handled, hhandle, Pc.held, ← hI.next i hhandle] at htaken
      omega
    rw [List.getElem?_eq_getElem hlt]
    rfl
  · rfl
  · split <;> rfl
  · split <;> rfl
  · rfl
  · rfl
  · rfl
  · contradiction

/-! ### What holds of the channel -/

/-- It leaves the loop for nothing but a Shutdown that is the last of the channel. -/
theorem Moves.drained {pc : Pc} (hm : Moves host p pc) (hpc : pc.leaves = true) :
    p.closed = true ∧ p.sent.length ≤ p.taken := by
  cases hm with
  | leaves _ hempty hclosed => exact ⟨hclosed, hempty⟩
  | _ => cases hpc

theorem Drained.step (hI : Drained p) (hs : step p act = some q) : Drained q := by
  cases stepped_of_step hs with
  | called command hopen =>
    intro hpc
    rw [(hI hpc).1] at hopen
    cases hopen
  | closed hopen hall => exact fun hpc => ⟨rfl, (hI hpc).2⟩
  | worked hw =>
    cases hw with
    | moved hm => exact hm.drained
    | dropped hpc =>
      rcases hpc with ⟨-, rfl⟩ | ⟨hpc, rfl⟩
      · rintro ⟨⟩
      · exact fun _ => hI (by rw [hpc]; rfl)
    | built hpc hb => rcases hpc with ⟨-, rfl⟩ | ⟨-, rfl⟩ <;> rintro ⟨⟩
    | _ => rintro ⟨⟩
  | _ => exact hI

theorem Quit.step (hI : Quit p) (hs : step p act = some q) : Quit q := by
  cases stepped_of_step hs with
  | worked hw =>
    cases hw with
    | moved hm => cases hm <;> rintro ⟨⟩
    | dropped hpc => exact fun _ => rfl
    | built hpc hb => rcases hpc with ⟨-, rfl⟩ | ⟨-, rfl⟩ <;> rintro ⟨⟩
    | _ => rintro ⟨⟩
  | reported hstream | rendered n hstream =>
    intro hpc
    rw [hI hpc] at hstream
    cases hstream
  | _ => exact hI

/-- The invariants of the worker and its channel. -/
structure Attending (p : Player) : Prop where
  /-- The commands are handled in order. -/
  ordered : Ordered p
  /-- All of them, before it exits. -/
  drained : Drained p
  /-- It drops its stream then. -/
  quit : Quit p

theorem Attending.step (hI : Attending p) (hs : step p act = some q) : Attending q :=
  ⟨hI.ordered.step hs, hI.drained.step hs, hI.quit.step hs⟩

theorem attending_of_run (hrun : Machine.Run step Machine.anyStep (spawn cfg) acts p) : Attending p :=
  hrun.invariant (fun _ _ _ hI _ hs => hI.step hs) ⟨ordered_spawn cfg, by rintro ⟨⟩, by rintro ⟨⟩⟩

theorem Stepped.lt_sent (h : Stepped p act q) (hk : k < p.sent.length) : k < q.sent.length := by
  obtain ⟨hsent, -⟩ := h.kept k
  exact (List.getElem?_eq_some_iff.mp (hsent _ (List.getElem?_eq_getElem hk))).1

theorem Stepped.lt_results (h : Stepped p act q) (hk : k < p.results.length) : k < q.results.length := by
  obtain ⟨-, hresults⟩ := h.kept k
  exact (List.getElem?_eq_some_iff.mp (hresults _ (List.getElem?_eq_getElem hk))).1

/-- No clone of a player that was dropped sends a command. -/
theorem Stepped.still_closed (h : Stepped p act q) (hclosed : p.closed = true) : q.closed = true ∧ q.sent = p.sent := by
  cases h with
  | called command hopen =>
    rw [hclosed] at hopen
    cases hopen
  | closed hopen hall => exact ⟨rfl, rfl⟩
  | worked hw => cases hw <;> exact ⟨hclosed, rfl⟩
  | _ => exact ⟨hclosed, rfl⟩

/-- What is left to the worker until it has taken `n` commands. -/
theorem Ordered.left_le (hI : Ordered p) (hn : p.results.length < n ∨ n = p.sent.length) :
    p.left n ≤ 9 * (n - p.results.length) + 9 := by
  have htaken := hI.taken
  have hhandled := hI.handled
  unfold Player.left
  cases hpc : p.pc with
  | handle i => simp only [hpc, Pc.held, Pc.left] at hhandled ⊢; omega
  | _ => simp only [hpc, Pc.held, Pc.left] at hhandled ⊢; omega

/-- A worker that has no more than its last nine steps left has handled the command. -/
theorem Attending.handled (hI : Attending p) (hk : k < p.sent.length) (hle : p.left (k + 1) ≤ 9) :
    k < p.results.length := by
  have htaken := hI.ordered.handled
  have hdrained := hI.drained
  unfold Player.left at hle
  unfold Drained at hdrained
  cases hpc : p.pc with
  | exit | exited =>
    obtain ⟨-, hall⟩ := hdrained (by rw [hpc]; rfl)
    simp only [hpc, Pc.held] at htaken
    omega
  | _ => simp only [hpc, Pc.held, Pc.left] at htaken hle; omega

/-! ### What it comes to -/

/-- In every run, a command that was sent is handled within nine steps of the worker for each that is
not handled yet, up to and with it, whatever the callers, the callbacks and the clock do in between
and whatever the devices answer; and until then the worker can take a step. -/
theorem command_is_handled (hrun : Machine.Run step Machine.anyStep (spawn cfg) acts p) (hk : k < p.sent.length) :
    (p.results.length ≤ k → ∀ host, ∃ q, step p (.work host) = some q) ∧
      ∀ bs q, Machine.Run step Machine.anyStep p bs q → 9 * (k + 1 - p.results.length) ≤ bs.countP Act.isWork →
        k < q.results.length := by
  have hI := attending_of_run hrun
  have hfirst : ∀ {p : Player}, Attending p → k < p.sent.length → p.results.length ≤ k → ∀ since,
      p.pc = .recv since → p.taken < k + 1 := by
    intro p hI hk hle since hpc
    have htaken := hI.ordered.handled
    simp only [hpc, Pc.held] at htaken
    omega
  refine ⟨fun hle host => ?_, fun bs q hbs hcount => ?_⟩
  · refine exists_work hI.ordered (fun hpc => ?_) (fun since hpc => .inl ?_) host
    · have hall := (hI.drained (by rw [hpc]; rfl)).2
      have hnear : p.left (k + 1) ≤ 9 := by
        simp only [Player.left, hpc, Pc.left]
        omega
      exact absurd (hI.handled hk hnear) (not_lt.mpr hle)
    · have := hfirst hI hk hle since hpc
      omega
  · by_cases hle : p.results.length ≤ k
    · refine hbs.ranked (I := fun p => Attending p ∧ k < p.sent.length) (G := fun p => k < p.results.length) Act.isWork
        (fun p => p.left (k + 1) - 9) ?_ ?_ ?_ ?_ ⟨hI, hk⟩ ?_
      · intro p act q hIk _ hs
        exact ⟨hIk.1.step hs, (stepped_of_step hs).lt_sent hIk.2⟩
      · intro p act q _ _ hs hgoal
        exact (stepped_of_step hs).lt_results hgoal
      · intro p hIk hzero
        exact hIk.1.handled hIk.2 (by omega)
      · intro p act q hIk _ hs hgoal
        obtain ⟨hI, hk⟩ := hIk
        have hfar : 9 < p.left (k + 1) := not_le.mp fun hle => hgoal (hI.handled hk hle)
        cases stepped_of_step hs with
        | worked hw =>
          have hlt : q.left (k + 1) < p.left (k + 1) :=
            hw.left_lt hk fun since hpc => .inl (hfirst hI hk (not_lt.mp hgoal) since hpc)
          omega
        | _ => exact ⟨le_rfl, by rintro ⟨⟩⟩
      · have := hI.ordered.left_le (n := k + 1) (.inl (Nat.lt_succ_of_le hle))
        omega
    · -- it is handled already
      exact hbs.invariant (I := fun p => k < p.results.length)
        (fun p act q hgoal _ hs => (stepped_of_step hs).lt_results hgoal) (not_le.mp hle)

/-- The worker builds its first stream, and handles the first of two commands. -/
def attending : List Act := [.call (.play beep .alarm), .call .stop] ++ works beepHost 5

theorem command_is_handled_device_lost :
    ∃ p q, Machine.Run step Machine.anyStep (spawn {}) attending p ∧ p.results.length = 1 ∧
      Machine.Run step Machine.anyStep p (works beepHost 2 ++ [.report] ++ works beepHost 7) q ∧
      1 < q.results.length := by
  obtain ⟨q, hrun, -⟩ : ∃ q, Machine.Run step Machine.anyStep (spawn {})
      (attending ++ (works beepHost 2 ++ [.report] ++ works beepHost 7)) q ∧ True :=
    Machine.Run.exists_of_execIf (by decide)
  obtain ⟨p, h, h'⟩ := hrun.of_append
  obtain ⟨hresults, hsent⟩ := h.ends (P := fun p => p.results.length = 1 ∧ 1 < p.sent.length) (by decide)
  obtain ⟨-, hhandled⟩ := command_is_handled h hsent
  exact ⟨p, q, h, hresults, h', hhandled _ q h' (by rw [hresults]; decide)⟩

/-- In every run, from when the last clone of the player was dropped: the worker takes no more than nine
steps for each command it has not handled and nine more, whatever the callbacks and the clock do in
between; until it has ended it can take a step; and when it has, it has handled every command and
dropped its stream. -/
theorem worker_exits {bs : List Act} (hrun : Machine.Run step Machine.anyStep (spawn cfg) acts p) (hclosed : p.closed = true)
    (hbs : Machine.Run step Machine.anyStep p bs q) :
    bs.countP Act.isWork ≤ 9 * (p.sent.length - p.results.length) + 9 ∧
      (q.pc ≠ .exited → ∀ host, ∃ r, step q (.work host) = some r) ∧
      (q.pc = .exited → q.results.length = q.sent.length ∧ q.stream = none) := by
  have hI := attending_of_run hrun
  have hkept : ∀ p act q, (Attending p ∧ p.closed = true) → Machine.anyStep p act → step p act = some q →
      Attending q ∧ q.closed = true := by
    intro p act q hIc _ hs
    exact ⟨hIc.1.step hs, ((stepped_of_step hs).still_closed hIc.2).1⟩
  obtain ⟨hIq, hclosedq⟩ := hbs.invariant hkept ⟨hI, hclosed⟩
  refine ⟨?_, fun hpc host => exists_work hIq.ordered hpc (fun _ _ => .inr hclosedq) host, fun hpc => ?_⟩
  · refine (hbs.countP_le (I := fun r => (Attending r ∧ r.closed = true) ∧ r.sent.length = p.sent.length) Act.isWork
      (fun r => r.left p.sent.length) ?_ ?_ ⟨⟨hI, hclosed⟩, rfl⟩).trans (hI.ordered.left_le (.inr rfl))
    · intro r act r' hIs hok hs
      obtain ⟨hI, hsent⟩ := hIs
      exact ⟨hkept r act r' hI hok hs, (congrArg List.length ((stepped_of_step hs).still_closed hI.2).2).trans hsent⟩
    · intro r act r' hIs _ hs
      obtain ⟨⟨hI, hclosed⟩, hsent⟩ := hIs
      cases stepped_of_step hs with
      | worked hw =>
        have hlt := hw.left_lt hsent.ge fun since hpc => .inr ⟨hclosed, hsent.symm⟩
        exact ⟨hlt.le, fun _ => hlt⟩
      | _ => exact ⟨le_rfl, by rintro ⟨⟩⟩
  · have htaken := hIq.ordered.taken
    have hhandled := hIq.ordered.handled
    have hall := (hIq.drained (by rw [hpc]; rfl)).2
    simp only [hpc, Pc.held] at hhandled
    exact ⟨by omega, hIq.quit hpc⟩

/-- The thread that dropped the player after a Play it gave up on waits for the worker to end. -/
theorem worker_exits_after_play :
    ∃ p q, Machine.Run step Machine.anyStep (spawn {}) [.call (.play beep .alarm), .tick 1000, .giveUp 0, .close] p ∧
      Machine.Run step Machine.anyStep p (works beepHost 10) q ∧ q.pc = .exited ∧
      q.results.length = q.sent.length ∧ q.stream = none := by
  obtain ⟨q, hrun, hpc⟩ : ∃ q, Machine.Run step Machine.anyStep (spawn {})
      ([.call (.play beep .alarm), .tick 1000, .giveUp 0, .close] ++ works beepHost 10) q ∧ q.pc = .exited :=
    Machine.Run.exists_of_execIf (by decide)
  obtain ⟨p, h, h'⟩ := hrun.of_append
  have hclosed := h.ends (P := fun p => p.closed = true) (by decide)
  obtain ⟨-, -, hend⟩ := worker_exits h hclosed h'
  exact ⟨p, q, h, h', hpc, hend hpc⟩

end HelmAlarm.Audio.CpalAudio
