import HelmAlarm.Audio.CpalAudio
import HelmAlarm.Library.Machine

/-!
# The audio worker and its callers

`CpalAudio` as it runs: any number of threads that call `play` and `stop` on clones
of it, the worker thread, and the two callbacks of the stream that is open. Each of
them takes steps in any order: `step`. What a party does under the lock of the shared
state is one step, and so is each operation of the worker on the channel, on a stream
or on the clock.

The channel is the commands that were sent and not yet taken, in the order in which
they were sent; behind them is a Shutdown once the last clone was dropped, which only
happens when no call is under way. A stream lives from when it was started to when it
is dropped, and its callbacks with it.

Logging is left out, and the thread that could not be spawned.
-/

namespace HelmAlarm.Audio.CpalAudio

open HelmAlarm.Library

/-- A thread in `send_and_wait`, that has sent its command. -/
structure Caller where
  /-- When it began to wait for the ack. -/
  since : ℕ
  /-- What is in its ack channel, or was. -/
  ack : Option (Except AudioError Unit) := none
  /-- What the call has returned. -/
  reply : Option (Except AudioError Unit) := none
  deriving DecidableEq, Repr

/-- Where the worker stands. -/
inductive Pc where
  /-- Before the first stream is built. -/
  | init
  /-- No first stream was built. -/
  | initFailed
  /-- Before the loop. -/
  | start
  /-- At the top of the loop. -/
  | check
  /-- The device was lost, and the stream is to be dropped. -/
  | drop
  /-- Waiting for a command, since a moment. -/
  | recv (since : ℕ)
  /-- The command `i` was taken. -/
  | handle (i : ℕ)
  /-- It was handled, and its caller is to be told. -/
  | ack (i : ℕ) (result : Except AudioError Unit)
  /-- Before the retry. -/
  | retry
  /-- A stream is being built. -/
  | build
  /-- It was built, and plays; the flag is to be cleared. -/
  | clear
  /-- After the retry. -/
  | retried
  /-- Out of the loop. -/
  | exit
  /-- The thread has ended. -/
  | exited
  deriving DecidableEq, Repr

/-- The player: its callers, its channel, its worker and its stream. -/
structure Player where
  /-- The configuration. -/
  cfg : CpalConfig
  /-- The clock. -/
  now : ℕ := 0
  /-- The commands that were sent, in order. -/
  sent : List PlayerCommand := []
  /-- The thread that sent each of them. -/
  callers : List Caller := []
  /-- The last clone was dropped. -/
  closed : Bool := false
  /-- How many commands the worker has taken from the channel. -/
  taken : ℕ := 0
  /-- Where the worker stands. -/
  pc : Pc := .init
  /-- The state it shares with the callbacks. -/
  shared : Shared := {}
  /-- The stream that is open. While the flag is to be cleared the worker does not hold it yet. -/
  stream : Option Stream := none
  /-- `last_retry`. -/
  lastRetry : ℕ := 0
  /-- What the worker made of each command so far, in order. -/
  results : List (Except AudioError Unit) := []
  /-- The buffers that were rendered so far. -/
  rendered : List (List ℚ) := []

/-- What can happen. -/
inductive Act where
  /-- A thread sends a command, and waits. -/
  | call (command : PlayerCommand)
  /-- The caller `i` receives its ack, and returns it. -/
  | receive (i : ℕ)
  /-- The caller `i` has waited long enough, and returns. -/
  | giveUp (i : ℕ)
  /-- The last clone is dropped. -/
  | close
  /-- The worker takes a step; `host` is what it finds if it builds a stream. -/
  | work (host : AudioHost)
  /-- The error callback of the stream runs. -/
  | report
  /-- The data callback of the stream runs, for a buffer of `n` samples. -/
  | render (n : ℕ)
  /-- Time passes. -/
  | tick (ms : ℕ)

namespace Player

/-- What the worker does with a command: `handle_play` or `handle_stop`. -/
def handle (command : PlayerCommand) (p : Player) : Except AudioError Unit × Shared :=
  match command with
  | .play sound profile => handlePlay sound profile p.stream.isSome p.shared
  | .stop => handleStop p.shared

/-- What the worker makes of a command: a Play is accepted when there is a stream, a Stop always. -/
theorem handle_cases (p : Player) (command : PlayerCommand) :
    (∃ sound profile, command = .play sound profile ∧ p.stream.isSome = true ∧
      p.handle command = (.ok (), { p.shared with playback := some { sound := sound, profile := profile } })) ∨
    (∃ sound profile, command = .play sound profile ∧ p.stream = none ∧
      p.handle command = (.error .deviceUnavailable, p.shared)) ∨
    (command = .stop ∧ p.handle command = (.ok (), { p.shared with playback := none })) := by
  cases command with
  | play sound profile =>
    cases hs : p.stream with
    | some stream => exact .inl ⟨sound, profile, rfl, rfl, by simp [handle, handlePlay, hs]⟩
    | none => exact .inr (.inl ⟨sound, profile, rfl, rfl, by simp [handle, handlePlay, hs]⟩)
  | stop => exact .inr (.inr ⟨rfl, rfl⟩)

theorem deviceLost_handle (p : Player) (command : PlayerCommand) :
    (p.handle command).2.deviceLost = p.shared.deviceLost := by
  cases command <;> simp [handle]

/-- `worker_main`, a step at a time. -/
def work (host : AudioHost) (p : Player) : Option Player :=
  match p.pc with
  | .init =>
    match buildStream host p.cfg with
    | .ok config => some { p with stream := some { config := config }, pc := .start }
    | .error _ => some { p with pc := .initFailed }
  | .initFailed => some { p with shared := { p.shared with deviceLost := true }, pc := .start }
  | .start => some { p with lastRetry := p.now, pc := .check }
  | .check =>
    if p.shared.deviceLost ∧ p.stream.isSome then some { p with pc := .drop }
    else some { p with pc := .recv p.now }
  | .drop => some { p with stream := none, pc := .recv p.now }
  | .recv since =>
    if p.taken < p.sent.length then some { p with taken := p.taken + 1, pc := .handle p.taken }
    else if p.closed then some { p with pc := .exit }
    else if since + deviceRetryInterval ≤ p.now then some { p with pc := .retry }
    else none
  | .handle i =>
    p.sent[i]?.map fun command =>
      { p with
        shared := (p.handle command).2
        results := p.results ++ [(p.handle command).1]
        pc := .ack i (p.handle command).1 }
  | .ack i result =>
    some { p with callers := p.callers.modify i fun caller => { caller with ack := some result }, pc := .retry }
  | .retry =>
    if p.stream = none ∧ p.lastRetry + deviceRetryInterval ≤ p.now then some { p with pc := .build }
    else some { p with pc := .check }
  | .build =>
    match buildStream host p.cfg with
    | .ok config => some { p with stream := some { config := config }, pc := .clear }
    | .error _ => some { p with pc := .retried }
  | .clear => some { p with shared := { p.shared with deviceLost := false }, pc := .retried }
  | .retried => some { p with lastRetry := p.now, pc := .check }
  | .exit => some { p with stream := none, pc := .exited }
  | .exited => none

end Player

/-- The machine of the callers, the worker and the callbacks. -/
def step : Machine Player Act := fun p act =>
  match act with
  | .call command =>
    if p.closed then none
    else some { p with sent := p.sent ++ [command], callers := p.callers ++ [{ since := p.now }] }
  | .receive i =>
    match p.callers[i]? with
    | some ⟨since, some result, none⟩ => some { p with callers := p.callers.set i ⟨since, some result, some result⟩ }
    | _ => none
  | .giveUp i =>
    match p.callers[i]? with
    | some ⟨since, none, none⟩ =>
      if since + commandAckTimeout ≤ p.now then
        some { p with callers := p.callers.set i ⟨since, none, some (.error .workerUnavailable)⟩ }
      else none
    | _ => none
  | .close =>
    if p.closed = false ∧ p.callers.all fun caller => caller.reply.isSome then some { p with closed := true } else none
  | .work host => p.work host
  | .report =>
    p.stream.map fun stream =>
      { p with shared := { p.shared with deviceLost := true }, stream := some { stream with reported := true } }
  | .render n =>
    p.stream.map fun stream =>
      { p with
        shared := (stream.render n p.shared).2.1
        stream := some (stream.render n p.shared).2.2
        rendered := p.rendered ++ [(stream.render n p.shared).1] }
  | .tick ms => some { p with now := p.now + ms }

/-- `CpalAudio::spawn`. -/
def spawn (cfg : CpalConfig) : Player := { cfg := cfg }

/-- The worker takes `n` steps. -/
def works (host : AudioHost) (n : ℕ) : List Act := List.replicate n (.work host)

/-! ### What a step does -/

/-- The steps of the worker that change nothing but where it stands. -/
inductive Moves (host : AudioHost) (p : Player) : Pc → Prop where
  /-- No first stream could be built. -/
  | initFailed {e : AudioError} (hpc : p.pc = .init) (hb : buildStream host p.cfg = .error e) :
      Moves host p .initFailed
  /-- The device was lost. -/
  | lost (hpc : p.pc = .check) (hlost : p.shared.deviceLost = true) (hs : p.stream.isSome = true) : Moves host p .drop
  /-- It was not, or there is no stream. -/
  | waits (hpc : p.pc = .check) (h : ¬ (p.shared.deviceLost = true ∧ p.stream.isSome = true)) :
      Moves host p (.recv p.now)
  /-- Nothing is in the channel but a Shutdown. -/
  | leaves {since : ℕ} (hpc : p.pc = .recv since) (hempty : p.sent.length ≤ p.taken) (hclosed : p.closed = true) :
      Moves host p .exit
  /-- Nothing came for five seconds. -/
  | timedOut {since : ℕ} (hpc : p.pc = .recv since) (hempty : p.sent.length ≤ p.taken) (hopen : p.closed = false)
      (hle : since + deviceRetryInterval ≤ p.now) : Moves host p .retry
  /-- There is no stream, and the last retry was long enough ago. -/
  | retries (hpc : p.pc = .retry) (h : p.stream = none ∧ p.lastRetry + deviceRetryInterval ≤ p.now) :
      Moves host p .build
  /-- There is one, or it was not. -/
  | skips (hpc : p.pc = .retry) (h : ¬ (p.stream = none ∧ p.lastRetry + deviceRetryInterval ≤ p.now)) :
      Moves host p .check
  /-- No stream could be built. -/
  | fails {e : AudioError} (hpc : p.pc = .build) (hb : buildStream host p.cfg = .error e) : Moves host p .retried

/-- What a step of the worker does. -/
inductive Worked (host : AudioHost) (p : Player) : Player → Prop where
  /-- It goes on. -/
  | moved {pc : Pc} (hm : Moves host p pc) : Worked host p { p with pc := pc }
  /-- It notes the time. -/
  | timed (hpc : p.pc = .start ∨ p.pc = .retried) : Worked host p { p with lastRetry := p.now, pc := .check }
  /-- It has no first stream, and flags the device as lost. -/
  | flagged (hpc : p.pc = .initFailed) :
      Worked host p { p with shared := { p.shared with deviceLost := true }, pc := .start }
  /-- It builds a stream. -/
  | built {config : StreamConfig} {pc : Pc} (hpc : p.pc = .init ∧ pc = .start ∨ p.pc = .build ∧ pc = .clear)
      (hb : buildStream host p.cfg = .ok config) : Worked host p { p with stream := some { config := config }, pc := pc }
  /-- It clears the flag after that, and holds the stream. -/
  | cleared (hpc : p.pc = .clear) :
      Worked host p { p with shared := { p.shared with deviceLost := false }, pc := .retried }
  /-- It drops the stream. -/
  | dropped {pc : Pc} (hpc : p.pc = .drop ∧ pc = .recv p.now ∨ p.pc = .exit ∧ pc = .exited) :
      Worked host p { p with stream := none, pc := pc }
  /-- It takes a command from the channel. -/
  | took {since : ℕ} (hpc : p.pc = .recv since) (hlt : p.taken < p.sent.length) :
      Worked host p { p with taken := p.taken + 1, pc := .handle p.taken }
  /-- It handles the command. -/
  | handled {i : ℕ} {command : PlayerCommand} (hpc : p.pc = .handle i) (hi : p.sent[i]? = some command) :
      Worked host p { p with
        shared := (p.handle command).2
        results := p.results ++ [(p.handle command).1]
        pc := .ack i (p.handle command).1 }
  /-- It tells the caller. -/
  | acked {i : ℕ} {result : Except AudioError Unit} (hpc : p.pc = .ack i result) :
      Worked host p { p with
        callers := p.callers.modify i fun caller => { caller with ack := some result }, pc := .retry }

variable {host : AudioHost} {p q : Player} {act : Act}

theorem worked_of_work (h : p.work host = some q) : Worked host p q := by
  unfold Player.work at h
  split at h
  · rename_i hpc
    split at h
    · rename_i hb
      obtain rfl := Option.some.inj h
      exact .built (.inl ⟨hpc, rfl⟩) hb
    · rename_i hb
      obtain rfl := Option.some.inj h
      exact .moved (.initFailed hpc hb)
  · rename_i hpc
    obtain rfl := Option.some.inj h
    exact .flagged hpc
  · rename_i hpc
    obtain rfl := Option.some.inj h
    exact .timed (.inl hpc)
  · rename_i hpc
    split at h <;> rename_i hlost <;> obtain rfl := Option.some.inj h
    · exact .moved (.lost hpc hlost.1 hlost.2)
    · exact .moved (.waits hpc hlost)
  · rename_i hpc
    obtain rfl := Option.some.inj h
    exact .dropped (.inl ⟨hpc, rfl⟩)
  · rename_i since hpc
    split at h
    · rename_i hlt
      obtain rfl := Option.some.inj h
      exact .took hpc hlt
    · rename_i hempty
      split at h
      · rename_i hclosed
        obtain rfl := Option.some.inj h
        exact .moved (.leaves hpc (not_lt.mp hempty) hclosed)
      · rename_i hopen
        split at h
        · rename_i hle
          obtain rfl := Option.some.inj h
          exact .moved (.timedOut hpc (not_lt.mp hempty) (Bool.eq_false_of_not_eq_true hopen) hle)
        · cases h
  · rename_i i hpc
    obtain ⟨command, hi, rfl⟩ := Option.map_eq_some_iff.mp h
    exact .handled hpc hi
  · rename_i i result hpc
    obtain rfl := Option.some.inj h
    exact .acked hpc
  · rename_i hpc
    split at h <;> rename_i hretry <;> obtain rfl := Option.some.inj h
    · exact .moved (.retries hpc hretry)
    · exact .moved (.skips hpc hretry)
  · rename_i hpc
    split at h <;> rename_i hb <;> obtain rfl := Option.some.inj h
    · exact .built (.inr ⟨hpc, rfl⟩) hb
    · exact .moved (.fails hpc hb)
  · rename_i hpc
    obtain rfl := Option.some.inj h
    exact .cleared hpc
  · rename_i hpc
    obtain rfl := Option.some.inj h
    exact .timed (.inr hpc)
  · rename_i hpc
    obtain rfl := Option.some.inj h
    exact .dropped (.inr ⟨hpc, rfl⟩)
  · cases h

/-- What a step does: one case for each kind. -/
inductive Stepped (p : Player) : Act → Player → Prop where
  /-- A command is sent. -/
  | called (command : PlayerCommand) (hopen : p.closed = false) :
      Stepped p (.call command) { p with sent := p.sent ++ [command], callers := p.callers ++ [{ since := p.now }] }
  /-- A caller returns what it was told. -/
  | received {i since : ℕ} {result : Except AudioError Unit} (hi : p.callers[i]? = some ⟨since, some result, none⟩) :
      Stepped p (.receive i) { p with callers := p.callers.set i ⟨since, some result, some result⟩ }
  /-- A caller that was not told in time returns that the worker is unavailable. -/
  | gaveUp {i since : ℕ} (hi : p.callers[i]? = some ⟨since, none, none⟩) (hle : since + commandAckTimeout ≤ p.now) :
      Stepped p (.giveUp i) { p with callers := p.callers.set i ⟨since, none, some (.error .workerUnavailable)⟩ }
  /-- The last clone is dropped. -/
  | closed (hopen : p.closed = false) (hall : ∀ caller ∈ p.callers, caller.reply.isSome = true) : Stepped p .close { p with closed := true }
  /-- The worker takes a step. -/
  | worked {host : AudioHost} {q : Player} (hw : Worked host p q) : Stepped p (.work host) q
  /-- The stream reports an error. -/
  | reported {stream : Stream} (hs : p.stream = some stream) :
      Stepped p .report
        { p with shared := { p.shared with deviceLost := true }, stream := some { stream with reported := true } }
  /-- The stream asks for a buffer. -/
  | rendered {stream : Stream} (n : ℕ) (hs : p.stream = some stream) :
      Stepped p (.render n) { p with
        shared := (stream.render n p.shared).2.1
        stream := some (stream.render n p.shared).2.2
        rendered := p.rendered ++ [(stream.render n p.shared).1] }
  /-- Time passes. -/
  | ticked (ms : ℕ) : Stepped p (.tick ms) { p with now := p.now + ms }

theorem stepped_of_step (h : step p act = some q) : Stepped p act q := by
  cases act with
  | call command =>
    simp only [step] at h
    split at h
    · cases h
    · rename_i hopen
      obtain rfl := Option.some.inj h
      exact .called command (Bool.eq_false_of_not_eq_true hopen)
  | receive i =>
    simp only [step] at h
    split at h
    · rename_i hi
      obtain rfl := Option.some.inj h
      exact .received hi
    · cases h
  | giveUp i =>
    simp only [step] at h
    split at h
    · rename_i hi
      split at h
      · rename_i hle
        obtain rfl := Option.some.inj h
        exact .gaveUp hi hle
      · cases h
    · cases h
  | close =>
    simp only [step] at h
    split at h
    · rename_i hc
      obtain rfl := Option.some.inj h
      exact .closed hc.1 (List.all_eq_true.mp hc.2)
    · cases h
  | work host => exact .worked (worked_of_work h)
  | report =>
    obtain ⟨stream, hs, rfl⟩ := Option.map_eq_some_iff.mp h
    exact .reported hs
  | render n =>
    obtain ⟨stream, hs, rfl⟩ := Option.map_eq_some_iff.mp h
    exact .rendered n hs
  | tick ms =>
    obtain rfl := Option.some.inj h
    exact .ticked ms

end HelmAlarm.Audio.CpalAudio
