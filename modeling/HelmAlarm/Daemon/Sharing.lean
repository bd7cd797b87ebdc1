import HelmAlarm.Daemon.Clones
import HelmAlarm.Library.Linearizability

/-!
# Sharing the daemon

`AlarmDaemon` is cloned into every party that uses it, and the clones share one state behind a
lock. This module puts the calls that read the state beside those of
`HelmAlarm.Daemon.Clones` that change it: any number of both may be in progress at once, a
reader takes the read lock at one step and returns at another, and the saves of the changes
succeed or fail and run in whatever order.

What is proved here: for the parties that share it the daemon is one state on which the calls are
made one after the other, `alone`. Every history of calls and answers is linearizable,
`calls_linearize`.
-/

namespace HelmAlarm.Daemon.Sharing

open HelmAlarm.Library HelmAlarm.Library.Linearizability

/-- What may be asked of the daemon. -/
inductive Op where
  /-- To become `desired`. -/
  | transitionTo (desired : State)
  /-- Its status. -/
  | status
  /-- The selected sound. -/
  | currentSound
  deriving DecidableEq, Repr

/-- What it answers. -/
inductive Answer where
  /-- What became of it. -/
  | transition (transition : Transition)
  /-- The status. -/
  | status (status : AlarmStatus)
  /-- The selected sound. -/
  | currentSound (soundId : Option String)
  deriving DecidableEq, Repr

/-- The daemon as its one user sees it: a state, and what a call does to it and answers. -/
def alone (state : State) : Op → State × Answer
  | .transitionTo desired =>
    if state = desired then (state, .transition .noChange)
    else (desired, .transition (.changed state.status desired.status))
  | .status => (state, .status state.status)
  | .currentSound => (state, .currentSound state.currentSound)

/-- It is what `transition_to` does to the state and answers, whatever becomes of the save. -/
theorem alone_transitionTo (f : Faults) (d : AlarmDaemon) (desired : State) :
    alone d.inner (.transitionTo desired) =
      ((d.transitionTo f desired).2.inner, .transition (d.transitionTo f desired).1) := by
  rw [AlarmDaemon.transitionTo_inner]
  by_cases hd : d.inner = desired
  · rw [← hd, AlarmDaemon.transitionTo_self]
    exact if_pos rfl
  · rw [AlarmDaemon.transitionTo_of_ne hd]
    exact if_neg hd

/-- A call that reads the state. -/
inductive Query where
  /-- `status`. -/
  | status
  /-- `current_sound`. -/
  | currentSound
  deriving DecidableEq, Repr

/-- What it asks. -/
def Query.op : Query → Op
  | .status => .status
  | .currentSound => .currentSound

/-- What it reads under the lock. -/
def Query.read (s : Clones.Sys) : Query → Answer
  | .status => .status s.daemon.status
  | .currentSound => .currentSound s.daemon.currentSound

theorem alone_query (s : Clones.Sys) (q : Query) : alone s.daemon.inner q.op = (s.daemon.inner, q.read s) := by
  cases q <;> rfl

/-- The clones, and the calls that read beside them. -/
abbrev step : Machine (WithReaders Clones.Sys Query Answer) (ReadersAct Clones.Act Query) :=
  withReaders Clones.step Query.read

/-- The steps within one process. -/
def SameProcess (_ : Clones.Sys) : Clones.Act → Prop
  | .restart _ => False
  | _ => True

instance (s : Clones.Sys) : (act : Clones.Act) → Decidable (SameProcess s act)
  | .restart _ => .isFalse id
  | .call _ | .swap _ | .openDb _ _ | .save _ _ | .ret _ => .isTrue trivial

/-! ### What is seen of the calls -/

/-- What is seen of a step of the clones: a call that is made, and a call that returns. -/
def see (s : Clones.Sys) : Clones.Act → List (Event ℕ Op Answer)
  | .call c => [.invoke s.calls.length (.transitionTo c.desired)]
  | .ret i =>
    match s.calls[i]? with
    | some ⟨_, .joined transition⟩ => [.respond i (.transition transition)]
    | _ => []
  | _ => []

/-- What is seen of a run from a daemon on whose clones no call was made. -/
abbrev history (d : AlarmDaemon) (as : List (ReadersAct Clones.Act Query)) : List (Event (ℕ ⊕ ℕ) Op Answer) :=
  step.observe (seeReaders see Query.op) ⟨⟨d, []⟩, []⟩ as

/-- A call takes effect when it swaps the state. -/
def standingOf (th : Clones.Thread) : Standing Op Answer :=
  match th.pc with
  | .lock => .pending (.transitionTo th.desired)
  | .queued _ transition | .joined transition => .decided (.transitionTo th.desired) (.transition transition)
  | .returned _ => .answered

/-- Where the calls stand. -/
def standing (s : Clones.Sys) (i : ℕ) : Option (Standing Op Answer) := s.calls[i]?.map standingOf

variable {s t : Clones.Sys} {i : ℕ}

theorem standing_set {d : AlarmDaemon} {th th' : Clones.Thread} (hi : s.calls[i]? = some th) :
    standing ⟨d, s.calls.set i th'⟩ = Function.update (standing s) i (some (standingOf th')) :=
  Pool.map_set standingOf hi

theorem standing_of_some {th : Clones.Thread} (hi : s.calls[i]? = some th) : standing s i = some (standingOf th) := by
  rw [standing, hi, Option.map_some]

/-- What a step of the clones is to the one state: a swap takes effect, and a save is nothing. -/
theorem moves_step (act : Clones.Act) (hok : SameProcess s act) (hs : Clones.step s act = some t) :
    Moves (fun _ => exactly alone) (standing s) s.daemon.inner (see s act) (standing t) t.daemon.inner := by
  cases act with
  | call c =>
    obtain rfl := Clones.step_call.mp hs
    have hadd : standing { s with calls := s.calls ++ [⟨c.desired, .lock⟩] } =
        Function.update (standing s) s.calls.length (some (.pending (.transitionTo c.desired))) := Pool.map_add standingOf
    rw [hadd]
    exact .invoke (by simp [standing])
  | swap i =>
    obtain ⟨desired, hi, ⟨hd, rfl⟩ | ⟨hd, rfl⟩⟩ := Clones.step_swap hs
    · rw [standing_set hi]
      exact .point (standing_of_some hi) (if_pos hd)
    · rw [standing_set hi]
      exact .point (standing_of_some hi) (if_neg hd)
  | openDb i f =>
    obtain rfl := Clones.step_openDb hs
    exact .skip
  | save i f =>
    obtain ⟨desired, snapshot, transition, hi, rfl⟩ := Clones.step_save hs
    rw [standing_set hi, Function.update_eq_self_iff.mpr (standing_of_some hi).symm]
    exact .skip
  | ret i =>
    obtain ⟨desired, transition, hi, rfl⟩ := Clones.step_ret hs
    rw [standing_set hi]
    simp only [see, hi]
    exact .respond (standing_of_some hi)
  | restart now => exact hok.elim

/-- In every run of one process, with any number of calls in progress at once that change or read the
state, and with saves that succeed or fail in whatever order: what the callers see is what they would
see if the calls were made one after the other on one state, in an order in which a call that
returned before another was made comes before it. -/
theorem calls_linearize {d : AlarmDaemon} {as : List (ReadersAct Clones.Act Query)}
    {t : WithReaders Clones.Sys Query Answer} (h : Machine.Run step (InnerOk SameProcess) ⟨⟨d, []⟩, []⟩ as t) :
    Linearizable (exactly alone) d.inner (history d as) :=
  linearizable_withReaders (fun _ act _ hok hs => moves_step act hok hs) alone_query h rfl fun _ => rfl

/-- A status read while an arm and a disarm are in progress; the save of the arm fails. -/
def readWhileArming : List (ReadersAct Clones.Act Query) :=
  [.inner (.call (.armWithSound "builtin:horn" (some 3000))), .inner (.call .disarm), .ask .status,
    .inner (.swap 0), .look 0, .inner (.swap 1), .ask .currentSound, .inner (.save 1 .none), .look 1,
    .answer 1, .inner (.save 0 { insert := some "disk full" }), .answer 0, .inner (.ret 1), .inner (.ret 0)]

/-- The status is armed, the sound read later is none, and the arm returns last. -/
theorem calls_linearize_read_while_arming :
    ∃ t, Machine.Run step (InnerOk SameProcess) ⟨⟨⟨.disarmed, {}⟩, []⟩, []⟩ readWhileArming t ∧
      .respond (.inr 0) (.status .armed) ∈ history ⟨.disarmed, {}⟩ readWhileArming ∧
      Linearizable (exactly alone) .disarmed (history ⟨.disarmed, {}⟩ readWhileArming) := by
  obtain ⟨t, hrun, -⟩ : ∃ t, Machine.Run step (InnerOk SameProcess) ⟨⟨⟨.disarmed, {}⟩, []⟩, []⟩ readWhileArming t ∧
      t.readers = [.answered, .answered] := Machine.Run.exists_of_execIf (by decide)
  exact ⟨t, hrun, by decide, calls_linearize hrun⟩

end HelmAlarm.Daemon.Sharing
