import HelmAlarm.Audio.Worker

/-!
# Device loss

The error callback of a stream sets the flag that makes the worker drop the stream
and build another. The worker clears the flag after it has built one, in a lock
section of its own, and the new stream plays by then: what it reports in between is
cleared with the flag, and the stream is kept though it is dead, `swallowed_report`.

When no stream reports in between, no report is ever swallowed: `report_is_heard`. The
worker then drops the stream at the top of its loop, whatever the others do meanwhile
(`dropped_of_check`), and its retry builds another.
-/

namespace HelmAlarm.Audio.CpalAudio

open HelmAlarm.Library

/-- No stream reports an error before the worker has cleared the flag after building it. -/
def Heard (p : Player) : Act → Prop
  | .report => p.pc ≠ .clear
  | _ => True

instance (p : Player) (act : Act) : Decidable (Heard p act) := by
  cases act <;> unfold Heard <;> infer_instance

variable {cfg : CpalConfig} {p q : Player} {act : Act} {acts : List Act} {stream : Stream} {host : AudioHost}

theorem Stream.deviceLost_render (n : ℕ) (shared : Shared) :
    (stream.render n shared).2.1.deviceLost = shared.deviceLost := deviceLost_fillF32

/-- Every report of the stream that is open is flagged. -/
structure Watched (p : Player) : Prop where
  /-- The stream that reported is flagged as lost. -/
  flagged : ∀ stream, p.stream = some stream → stream.reported = true → p.shared.deviceLost = true
  /-- When the flag is to be cleared, the stream has not reported. -/
  silent : p.pc = .clear → ∀ stream, p.stream = some stream → stream.reported = false

/-- A worker that only goes on does not come to clear the flag. -/
theorem Moves.ne_clear {pc : Pc} (hm : Moves host p pc) : pc ≠ .clear := by
  cases hm <;> simp

theorem Watched.worked (hI : Watched p) (hw : Worked host p q) : Watched q := by
  cases hw with
  | moved hm => exact ⟨hI.flagged, fun hpc => absurd hpc hm.ne_clear⟩
  | timed hpc => exact ⟨hI.flagged, by rintro ⟨⟩⟩
  | flagged hpc => exact ⟨fun _ _ _ => rfl, by rintro ⟨⟩⟩
  | built hpc hb =>
    refine ⟨?_, ?_⟩
    · rintro _ ⟨⟩ ⟨⟩
    · rintro - _ ⟨⟩
      rfl
  | cleared hpc =>
    refine ⟨fun stream hs hr => ?_, by rintro ⟨⟩⟩
    rw [hI.silent hpc stream hs] at hr
    cases hr
  | dropped hpc => exact ⟨by rintro _ ⟨⟩, by rintro - _ ⟨⟩⟩
  | took hpc hlt => exact ⟨hI.flagged, by rintro ⟨⟩⟩
  | handled hpc hi =>
    refine ⟨fun stream hs hr => ?_, by rintro ⟨⟩⟩
    exact (p.deviceLost_handle _).trans (hI.flagged stream hs hr)
  | acked hpc => exact ⟨hI.flagged, by rintro ⟨⟩⟩

theorem Watched.step (hI : Watched p) (hok : Heard p act) (hs : step p act = some q) : Watched q := by
  cases stepped_of_step hs with
  | called command hopen => exact ⟨hI.flagged, hI.silent⟩
  | received hi => exact ⟨hI.flagged, hI.silent⟩
  | gaveUp hi hle => exact ⟨hI.flagged, hI.silent⟩
  | closed hopen hall => exact ⟨hI.flagged, hI.silent⟩
  | worked hw => exact hI.worked hw
  | reported hstream => exact ⟨fun _ _ _ => rfl, fun hpc => absurd hpc hok⟩
  | @rendered stream n hstream =>
    refine ⟨?_, ?_⟩
    · rintro _ ⟨⟩ hr
      exact (stream.deviceLost_render n _).trans (hI.flagged stream hstream hr)
    · rintro hpc _ ⟨⟩
      exact hI.silent hpc stream hstream
  | ticked ms => exact ⟨hI.flagged, hI.silent⟩

theorem watched_of_run (hrun : Machine.Run step Heard (spawn cfg) acts p) : Watched p :=
  hrun.invariant (fun _ _ _ hI hok hs => hI.step hok hs) ⟨by rintro _ ⟨⟩, by rintro ⟨⟩⟩

/-! ### What comes of a flag -/

/-- The worker takes a step. -/
def Act.isWork : Act → Bool
  | .work _ => true
  | _ => false

/-- Whoever else takes a step leaves the worker where it is, a flag that is set, and the stream open. -/
theorem Stepped.frame (h : Stepped p act q) (hw : act.isWork = false) :
    q.pc = p.pc ∧ (p.shared.deviceLost = true → q.shared.deviceLost = true) ∧
      (p.stream.isSome = true → q.stream.isSome = true) := by
  cases h with
  | worked => cases hw
  | reported => exact ⟨rfl, fun _ => rfl, fun _ => rfl⟩
  | @rendered stream n => exact ⟨rfl, (stream.deviceLost_render n _).trans, fun _ => rfl⟩
  | _ => exact ⟨rfl, id, id⟩

/-- Somewhere in the run from `p` by `acts` no stream is open. -/
def Drops (p : Player) (acts : List Act) : Prop :=
  ∃ as bs q, acts = as ++ bs ∧ Machine.Run step Machine.anyStep p as q ∧ q.stream = none

theorem Drops.cons (hs : step p act = some q) (h : Drops q acts) : Drops p (act :: acts) := by
  obtain ⟨as, bs, r, rfl, hrun, hnone⟩ := h
  exact ⟨act :: as, bs, r, rfl, .cons trivial hs hrun, hnone⟩

/-- A worker that is about to drop its stream does so in its next step. -/
theorem dropped_of_drop (hrun : Machine.Run step Machine.anyStep p acts q) (hpc : p.pc = .drop)
    (hcount : 1 ≤ acts.countP Act.isWork) : Drops p acts := by
  induction hrun with
  | nil => cases hcount
  | @cons p r _ act acts _ hs _ ih =>
    cases hwork : act.isWork with
    | false =>
      obtain ⟨hpc', -⟩ := (stepped_of_step hs).frame hwork
      exact (ih (hpc'.trans hpc) (by simpa [hwork] using hcount)).cons hs
    | true =>
      cases act with
      | work host =>
        simp only [step, Player.work, hpc] at hs
        exact ⟨[.work host], acts, r, rfl, .single trivial (by simpa only [step, Player.work, hpc] using hs),
          by rw [← Option.some.inj hs]⟩
      | _ => cases hwork

/-- A worker that comes to the top of its loop with the stream flagged as lost drops it in its next
two steps, whatever the others do. -/
theorem dropped_of_check (hrun : Machine.Run step Machine.anyStep p acts q) (hpc : p.pc = .check)
    (hlost : p.shared.deviceLost = true) (hopen : p.stream.isSome = true)
    (hcount : 2 ≤ acts.countP Act.isWork) : Drops p acts := by
  induction hrun with
  | nil => cases hcount
  | @cons p r _ act acts _ hs hrest ih =>
    cases hwork : act.isWork with
    | false =>
      obtain ⟨hpc', hlost', hopen'⟩ := (stepped_of_step hs).frame hwork
      exact (ih (hpc'.trans hpc) (hlost' hlost) (hopen' hopen) (by simpa [hwork] using hcount)).cons hs
    | true =>
      cases act with
      | work host =>
        have hdrop : r.pc = .drop := by
          have hs' := hs
          simp only [step, Player.work, hpc, if_pos (And.intro hlost hopen)] at hs'
          rw [← Option.some.inj hs']
        exact (dropped_of_drop hrest hdrop (by simpa [hwork] using hcount)).cons hs
      | _ => cases hwork

/-- Without a stream, and long enough after the last retry, the worker builds one if it can. -/
theorem rebuilt_of_retry {config : StreamConfig} (hpc : p.pc = .retry) (hnone : p.stream = none)
    (hle : p.lastRetry + deviceRetryInterval ≤ p.now) (hb : buildStream host p.cfg = .ok config) :
    ∃ q, step.exec p (works host 4) = some q ∧ q.stream = some { config := config } ∧
      q.pc = .check := by
  refine ⟨{ p with
    pc := .check
    lastRetry := p.now
    stream := some { config := config }
    shared := { p.shared with deviceLost := false } }, ?_, rfl, rfl⟩
  simp [works, List.replicate, step, Player.work, hpc, hnone, hle, hb]

/-- A report before the flag is cleared is cleared with it, and the stream is kept. -/
theorem swallowed_of_clear (hpc : p.pc = .clear) (hs : p.stream = some stream) :
    ∃ q, step.exec p [.report, .work host] = some q ∧ q.stream = some { stream with reported := true } ∧
      q.shared.deviceLost = false ∧ q.pc = .retried := by
  refine ⟨{ p with
    pc := .retried
    stream := some { stream with reported := true }
    shared := { p.shared with deviceLost := false } }, ?_, rfl, rfl, rfl⟩
  simp [step, Player.work, hpc, hs]

/-- In every run in which no stream reports an error between its build and the clearing of the flag,
over any number of losses and rebuilds: whenever the error callback of the stream that is open has
run, the device is flagged as lost; the worker, at the top of its loop, then drops the stream,
whatever the others do; and its retry builds another. -/
theorem report_is_heard (hrun : Machine.Run step Heard (spawn cfg) acts p) :
    (∀ stream, p.stream = some stream → stream.reported = true →
      p.shared.deviceLost = true ∧
        ∀ bs q, p.pc = .check → Machine.Run step Machine.anyStep p bs q → 2 ≤ bs.countP Act.isWork → Drops p bs) ∧
    (p.stream = none → p.pc = .retry → p.lastRetry + deviceRetryInterval ≤ p.now →
      ∀ host config, buildStream host p.cfg = .ok config →
        ∃ q, step.exec p (works host 4) = some q ∧ q.stream = some { config := config } ∧
          q.pc = .check) := by
  have hI := watched_of_run hrun
  refine ⟨fun stream hs hr => ?_, fun hnone hpc hle host config hb => rebuilt_of_retry hpc hnone hle hb⟩
  have hlost := hI.flagged stream hs hr
  exact ⟨hlost, fun bs q hpc hbs hcount => dropped_of_check hbs hpc hlost (by rw [hs]; rfl) hcount⟩

/-- A host without a device. -/
def bareHost : AudioHost := ⟨.ok [], none⟩

/-- A host with a device. -/
def speakerHost : AudioHost := ⟨.ok [], some ⟨some "speaker", .ok (.f32, ⟨1, 8000⟩), .ok (), .ok ()⟩⟩

/-- The first stream fails to be built, and the retry builds one. -/
def recovering : List Act := works bareHost 4 ++ [.tick 5000] ++ works speakerHost 3

theorem report_is_heard_after_clear :
    ∃ p stream, Machine.Run step Heard (spawn {}) (recovering ++ [.work speakerHost, .report]) p ∧
      p.stream = some stream ∧ stream.reported = true ∧ p.shared.deviceLost = true := by
  obtain ⟨p, hrun, hs⟩ : ∃ p, Machine.Run step Heard (spawn {}) (recovering ++ [.work speakerHost, .report]) p ∧
      p.stream = some ⟨⟨1, 8000⟩, [], true⟩ := Machine.Run.exists_of_execIf (by decide)
  exact ⟨p, _, hrun, hs, rfl, ((report_is_heard hrun).1 _ hs rfl).1⟩

/-- The new stream reports an error before the flag is cleared: the worker holds it, the device is not
flagged as lost, and the worker passes the top of its loop with it. -/
theorem swallowed_report :
    ∃ p stream, Machine.Run step Machine.anyStep (spawn {})
        (recovering ++ [.report] ++ works speakerHost 3) p ∧
      p.stream = some stream ∧ stream.reported = true ∧ p.shared.deviceLost = false ∧ p.pc = .recv 5000 := by
  obtain ⟨p, hrun, hs, hlost, hpc⟩ : ∃ p, Machine.Run step Machine.anyStep (spawn {})
      (recovering ++ [.report] ++ works speakerHost 3) p ∧
      p.stream = some ⟨⟨1, 8000⟩, [], true⟩ ∧ p.shared.deviceLost = false ∧ p.pc = .recv 5000 :=
    Machine.Run.exists_of_execIf (by decide)
  exact ⟨p, _, hrun, hs, rfl, hlost, hpc⟩

end HelmAlarm.Audio.CpalAudio
