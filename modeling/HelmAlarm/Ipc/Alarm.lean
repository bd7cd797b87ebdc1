import HelmAlarm.Library.ChangeLog
import HelmAlarm.Library.Machine
import Mathlib.Data.Int.Order.Basic

/-!
# The alarm, abstractly

What the daemon is for, stated without its tasks, locks, store or signals: an
alarm is off, or on for a sound at a time. Arm and Snooze turn it on for a later
time and silence the player, Disarm and Dismiss turn it off and silence it, and
when the time has come it is fired, once: its sound is handed to the player if
its file decodes.

Sounds, the files they are found in and what a file decodes to are any types;
times are integers, held at a `limit`. `Account` adds what there is to observe:
the commands to the player, the changes of the armed flag that are announced and
the replies. Its lemmas hold of every run, and say that the announcements are
authoritative and that each call that turned the alarm on is fired at most once.
-/

namespace HelmAlarm.Ipc

open HelmAlarm.Library

universe u v w

variable {Sound : Type u} {File : Type v} {Audio : Type w}

/-- An alarm. -/
inductive Alarm (Sound : Type u) (File : Type v) where
  /-- It is off. -/
  | off
  /-- It is on for `sound`, found in `file`, at the time `fireAt`; or was, and has `fired`. -/
  | on (sound : Sound) (file : File) (fireAt : ℤ) (fired : Bool)
  deriving DecidableEq, Repr

namespace Alarm

/-- The alarm is on. -/
def isOn : Alarm Sound File → Bool
  | .off => false
  | .on _ _ _ _ => true

/-- The sound it is on for. -/
def sound : Alarm Sound File → Option Sound
  | .off => none
  | .on sound _ _ _ => some sound

/-- The time it is on for. -/
def fireAt : Alarm Sound File → Option ℤ
  | .off => none
  | .on _ _ fireAt _ => some fireAt

/-- It is on and has not fired. -/
def isPending : Alarm Sound File → Bool
  | .on _ _ _ false => true
  | _ => false

end Alarm

/-- What reaches an alarm: calls, with what they find around them, and the timer. -/
inductive Input (Sound : Type u) (File : Type v) (Audio : Type w) where
  /-- Arm, at the time `now`; `files` says which sounds can be resolved, and to what. -/
  | arm (sound : Sound) (files : Sound → Option File) (now : ℕ)
  /-- Snooze. -/
  | snooze (seconds : ℕ) (files : Sound → Option File) (now : ℕ)
  /-- Disarm or Dismiss. -/
  | acknowledge
  /-- The time has come; `decode` says which files can be decoded, and to what. -/
  | fire (decode : File → Option Audio)

/-- A command to the player. -/
inductive Command (Sound : Type u) (Audio : Type w) where
  /-- Stop. -/
  | silence
  /-- Play what the file of `sound` was decoded to. -/
  | play (sound : Sound) (audio : Audio)
  deriving DecidableEq, Repr

/-- The command plays something. -/
def Command.isPlay : Command Sound Audio → Bool
  | .silence => false
  | .play _ _ => true

/-- An alarm, and all that could be observed of it so far. -/
structure Account (Sound : Type u) (File : Type v) (Audio : Type w) where
  /-- The alarm. -/
  alarm : Alarm Sound File := .off
  /-- The commands to the player. -/
  commands : List (Command Sound Audio) := []
  /-- The values the armed flag changed to. -/
  changes : List Bool := []
  /-- For each call, whether it was accepted. -/
  replies : List Bool := []
  deriving DecidableEq, Repr

namespace Account

/-- A call is rejected. -/
def reject (a : Account Sound File Audio) : Account Sound File Audio := { a with replies := a.replies ++ [false] }

/-- A call that turns the alarm on is accepted. -/
def turnOn (sound : Sound) (file : File) (fireAt : ℤ) (a : Account Sound File Audio) :
    Account Sound File Audio where
  alarm := .on sound file fireAt false
  commands := a.commands ++ [.silence]
  changes := if a.alarm.isOn then a.changes else a.changes ++ [true]
  replies := a.replies ++ [true]

/-- A call that turns the alarm off is accepted. -/
def turnOff (a : Account Sound File Audio) : Account Sound File Audio where
  alarm := .off
  commands := a.commands ++ [.silence]
  changes := if a.alarm.isOn then a.changes ++ [false] else a.changes
  replies := a.replies ++ [true]

/-- What an Arm does. -/
def arm (delay : ℕ) (limit : ℤ) (sound : Sound) (files : Sound → Option File) (now : ℕ)
    (a : Account Sound File Audio) : Account Sound File Audio :=
  match files sound with
  | none => a.reject
  | some file => a.turnOn sound file (min (now + delay) limit)

/-- What a Snooze does: an Arm with the sound the alarm is on for. -/
def snooze (limit : ℤ) (seconds : ℕ) (files : Sound → Option File) (now : ℕ)
    (a : Account Sound File Audio) : Account Sound File Audio :=
  if seconds = 0 then a.reject
  else
    match a.alarm with
    | .off => a.reject
    | .on sound _ _ _ => a.arm (seconds * 1000) limit sound files now

/-- What the timer does, for an alarm that is on and has not fired. -/
def fire (decode : File → Option Audio) (a : Account Sound File Audio) : Option (Account Sound File Audio) :=
  match a.alarm with
  | .on sound file fireAt false =>
    some { a with
      alarm := .on sound file fireAt true
      commands := a.commands ++ ((decode file).map (.play sound)).toList }
  | _ => none

/-- The alarm, whose Arm has the delay `triggerDelay`. -/
def step (triggerDelay : ℕ) (limit : ℤ) : Machine (Account Sound File Audio) (Input Sound File Audio) :=
  fun a input =>
    match input with
    | .arm sound files now => some (a.arm triggerDelay limit sound files now)
    | .snooze seconds files now => some (a.snooze limit seconds files now)
    | .acknowledge => some a.turnOff
    | .fire decode => a.fire decode

/-! ### What holds of every run -/

/-- What the account says fits the alarm. -/
structure Coherent (a : Account Sound File Audio) : Prop where
  /-- The changes are those of the alarm, which was off. -/
  log : ChangeLog false a.changes a.alarm.isOn
  /-- The player is silenced between two sounds. -/
  apart : a.commands.IsChain fun c d => c.isPlay = false ∨ d.isPlay = false
  /-- An alarm that has not fired was turned on after the last sound. -/
  silent : a.alarm.isPending = true → ∀ c ∈ a.commands.getLast?, c.isPlay = false

variable {a b : Account Sound File Audio} {triggerDelay : ℕ} {limit : ℤ} {input : Input Sound File Audio}

theorem coherent_nil : Coherent ({} : Account Sound File Audio) :=
  ⟨.nil, .nil, by simp⟩

theorem Coherent.reject (h : Coherent a) : Coherent a.reject := ⟨h.log, h.apart, h.silent⟩

theorem Coherent.turnOn (h : Coherent a) (sound : Sound) (file : File) (fireAt : ℤ) :
    Coherent (a.turnOn sound file fireAt) := by
  refine ⟨?_, h.apart.append (.singleton _) (by simp [Command.isPlay]), by simp [Account.turnOn, Command.isPlay]⟩
  have hlog := h.log
  simp only [Account.turnOn]
  split
  · rename_i hon
    rwa [hon] at hlog
  · rename_i hoff
    exact hlog.snoc hoff

theorem Coherent.turnOff (h : Coherent a) : Coherent a.turnOff := by
  refine ⟨?_, h.apart.append (.singleton _) (by simp [Command.isPlay]), by simp [Account.turnOff, Command.isPlay]⟩
  have hlog := h.log
  simp only [Account.turnOff]
  split
  · rename_i hon
    rw [hon] at hlog
    exact hlog.snoc (by decide)
  · rename_i hoff
    rw [Bool.not_eq_true] at hoff
    rwa [hoff] at hlog

theorem Coherent.fire {decode : File → Option Audio} (h : Coherent a) (hf : a.fire decode = some b) :
    Coherent b := by
  unfold Account.fire at hf
  split at hf
  · rename_i sound file fireAt ha
    obtain rfl := Option.some.inj hf
    have hsilent := h.silent (by rw [ha]; rfl)
    refine ⟨by simpa [ha, Alarm.isOn] using h.log, ?_, by simp [Alarm.isPending]⟩
    refine h.apart.append ?_ fun c hc d _ => .inl (hsilent c hc)
    cases decode file with
    | none => exact .nil
    | some audio => exact .singleton _
  · cases hf

theorem Coherent.arm (h : Coherent a) (delay : ℕ) (sound : Sound) (files : Sound → Option File) (now : ℕ) :
    Coherent (a.arm delay limit sound files now) := by
  unfold Account.arm
  split
  · exact h.reject
  · exact h.turnOn _ _ _

theorem Coherent.step (h : Coherent a) (hs : step triggerDelay limit a input = some b) : Coherent b := by
  cases input with
  | arm sound files now =>
    obtain rfl := Option.some.inj hs
    exact h.arm _ _ _ _
  | snooze seconds files now =>
    obtain rfl := Option.some.inj hs
    unfold Account.snooze
    split
    · exact h.reject
    · split
      · exact h.reject
      · exact h.arm _ _ _ _
  | acknowledge =>
    obtain rfl := Option.some.inj hs
    exact h.turnOff
  | fire decode => exact h.fire hs

/-- Of every run from an alarm that is off: the changes announced alternate and the last is what
the alarm is, and the player is silenced between two sounds. -/
theorem coherent_of_exec {inputs : List (Input Sound File Audio)}
    (h : (step triggerDelay limit).exec {} inputs = some b) : Coherent b :=
  (Machine.exec_eq_some_iff.mp h).invariant (fun _ _ _ hc _ hs => hc.step hs) coherent_nil

end Account

end HelmAlarm.Ipc
