import HelmAlarm.Library.ChangeLog
import HelmAlarm.Ipc.Triggers

/-!
# The StateChanged signals

A handler learns from `transition_to` that it changed the armed flag, and emits
`StateChanged` much later, after the save and the storing of its trigger's handle.
In between, other handlers change the flag and announce that. `snooze` learns it
too, and announces nothing.

`FlagHistory` records the changes of the flag as they happen. When the handlers
announce in the order of their changes, and a Snooze finds the alarm still armed
when it swaps the state, the signals are the changes that have been announced, in
order, and the others are still to be announced: `signals_follow_flag`.
-/

namespace HelmAlarm.Ipc

open HelmAlarm.Library HelmAlarm.Daemon HelmAlarm.Audio

/-- The change of the flag that a handler is going to announce. -/
def Pc.owes : Pc → Option Bool
  | .save job _ transition | .announce job transition => if job.announces then transition.flag else none
  | .spawn _ announces transition | .store _ announces transition _ => if announces then transition.flag else none
  | _ => none

/-- The change of the flag that handler `i` is going to announce. -/
def Sys.owes (s : Sys) (i : ℕ) : Option Bool := s.handlers[i]?.bind fun hd => hd.pc.owes

/-- What has happened to the armed flag. -/
structure FlagHistory where
  /-- The values it changed to, in order. -/
  changes : List Bool := []
  /-- The handlers that are going to announce a change, in the order of the changes. -/
  waiting : List ℕ := []
  deriving DecidableEq, Repr

/-- The handler that takes a step. -/
def Act.handler : Act → Option ℕ
  | .advance i _ => some i
  | _ => none

/-- The history after a step from `s` to `t`. -/
def FlagHistory.after (hist : FlagHistory) (s : Sys) (act : Act) (t : Sys) : FlagHistory where
  changes := if s.control.status = t.control.status then hist.changes else hist.changes ++ [t.control.status]
  waiting :=
    (if s.control.status = t.control.status then hist.waiting else hist.waiting ++ act.handler.toList).filter
      fun i => (t.owes i).isSome

/-- A handler announces a change of the flag when no other has an earlier one to announce. -/
def announcesInOrder (p : Sys × FlagHistory) (act : Act) : Bool :=
  match p.1.next act with
  | some (.announce job transition) =>
    (Pc.owes (.announce job transition)).isNone || p.2.waiting.head? = act.handler
  | _ => true

/-- A Snooze swaps the state while the alarm is armed. -/
def snoozesArmed (s : Sys) (act : Act) : Bool :=
  match s.next act with
  | some (.swap (.schedule _ false)) => s.control.status
  | _ => true

/-- The process is not restarted. -/
def withoutRestart : Act → Bool
  | .restart _ => false
  | _ => true

/-- The steps of one process in which the signals are in order. -/
def InOrder (p : Sys × FlagHistory) (act : Act) : Prop :=
  withoutRestart act = true ∧ announcesInOrder p act = true ∧ snoozesArmed p.1 act = true

instance (p : Sys × FlagHistory) (act : Act) : Decidable (InOrder p act) := inferInstanceAs (Decidable (_ ∧ _))

variable {s t : Sys} {hist : FlagHistory} {act : Act} {i j : ℕ} {f : Faults} {request : Request} {pc pc' : Pc}
  {h : Host} {c c' control : Control} {b₀ : Bool}

/-! ### The history of a run -/

/-- Whatever the step is, the history goes on with the flag. -/
theorem FlagHistory.log_after (hlog : ChangeLog b₀ hist.changes s.control.status) :
    ChangeLog b₀ (hist.after s act t).changes t.control.status := by
  unfold FlagHistory.after
  by_cases hstatus : s.control.status = t.control.status
  · simpa [hstatus] using hstatus ▸ hlog
  · simpa [hstatus] using hlog.snoc hstatus

theorem log_of_run {ok : Sys × FlagHistory → Act → Prop} {as : List Act}
    (hrun : Machine.Run (step.track FlagHistory.after) ok (s, {}) as (t, hist)) :
    ChangeLog s.control.status hist.changes t.control.status := by
  refine hrun.invariant (I := fun p => ChangeLog s.control.status p.2.changes p.1.control.status) ?_ .nil
  rintro ⟨s', hist'⟩ act ⟨t', hist''⟩ hlog - hs
  rw [(Machine.track_eq_some_iff.mp hs).2]
  exact FlagHistory.log_after hlog

/-! ### What a step does to the flag and the signals -/

/-- A step of a handler that changes the flag, or announces a change, or does neither. -/
inductive Flagged (c : Control) : Pc → Control → Pc → Prop where
  /-- Neither. -/
  | same {pc pc' : Pc} {c' : Control} (hstatus : c'.status = c.status) (hsignals : c'.signals = c.signals)
      (howes : pc'.owes = pc.owes) : Flagged c pc c' pc'
  /-- The flag changes, and the handler is going to announce that, if its method announces. -/
  | changed {job : Job} {pc' : Pc} {c' : Control} (hstatus : c'.status ≠ c.status)
      (hdesired : c'.status = job.desired.status.isArmed) (hsignals : c'.signals = c.signals)
      (howes : pc'.owes = if job.announces then some c'.status else none) : Flagged c (.swap job) c' pc'
  /-- A change is announced. -/
  | announced {job : Job} {transition : Transition} {pc' : Pc} {c' : Control} {b : Bool}
      (hstatus : c'.status = c.status) (howes : Pc.owes (.announce job transition) = some b)
      (hsignals : c'.signals = c.signals ++ [b]) (hend : pc'.owes = none) :
      Flagged c (.announce job transition) c' pc'

theorem owes_afterTransition (job : Job) (snapshot : PersistedState) (transition : Transition) :
    (job.afterTransition transition).owes = (Pc.save job snapshot transition).owes := by
  cases job <;> rfl

theorem owes_afterTransition_noChange (job : Job) : (job.afterTransition .noChange).owes = none := by
  cases job with
  | disarm => rfl
  | schedule sch announces => cases announces <;> rfl

theorem flagged_of_moved (hm : Moved h request c pc c' pc') : Flagged c pc c' pc' := by
  cases hm with
  | rejected | accepted | stopped | spawned | stored => exact .same rfl rfl rfl
  | taken => exact .same (by simp [Control.status]) (by simp) rfl
  | @kept job hd => exact .same rfl rfl (owes_afterTransition_noChange job)
  | @saved job snapshot transition f => exact .same rfl rfl (owes_afterTransition job snapshot transition)
  | @swapped job hd =>
    by_cases hs : job.desired.status = c.daemon.inner.status
    · refine .same (by simp [Control.status, AlarmDaemon.status, hs]) rfl ?_
      simp [Pc.owes, Transition.flag, hs]
    · refine .changed ?_ rfl rfl ?_
      · rw [Control.status, Control.status, ne_eq, AlarmStatus.isArmed_inj]
        exact hs
      · simp [Pc.owes, Transition.flag, Ne.symm hs, Control.status, AlarmDaemon.status]
  | @announced job transition =>
    cases howes : Pc.owes (.announce job transition) with
    | none =>
      refine .same (by split <;> simp [Control.status]) ?_ (by rw [howes]; rfl)
      split
      · rename_i ha
        rw [Pc.owes, if_pos ha] at howes
        rw [Control.signals_announce, howes]
        simp
      · rfl
    | some b =>
      have ha : job.announces = true := by
        by_contra ha
        rw [Pc.owes, if_neg ha] at howes
        cases howes
      rw [if_pos ha]
      refine .announced (by simp [Control.status]) howes ?_ rfl
      rw [Pc.owes, if_pos ha] at howes
      rw [Control.signals_announce, howes]
      rfl

/-! ### The invariant -/

theorem owes_set (hi : s.handlers[i]? = some ⟨request, pc⟩) :
    Sys.owes { s with control := control, handlers := s.handlers.set i ⟨request, pc'⟩ } j =
      if j = i then pc'.owes else s.owes j := by
  unfold Sys.owes
  split
  · rename_i hji
    rw [hji, Pool.set_self hi]
    rfl
  · rename_i hji
    rw [Pool.set_of_ne hji]

theorem owes_self (hi : s.handlers[i]? = some ⟨request, pc⟩) : s.owes i = pc.owes := by
  rw [Sys.owes, hi]
  rfl

/-- The signals emitted, and those to come, are the changes of the history. -/
structure InStep (p : Sys × FlagHistory) : Prop where
  /-- What has been announced, and what is still to be announced, are the changes in order. -/
  changes : p.2.changes = p.1.control.signals ++ p.2.waiting.filterMap p.1.owes
  /-- The handlers that are going to announce a change are those that wait. -/
  waiting : ∀ i, i ∈ p.2.waiting ↔ (p.1.owes i).isSome = true
  /-- No handler waits twice. -/
  nodup : p.2.waiting.Nodup

theorem InStep.filter_waiting (hI : InStep (s, hist)) :
    hist.waiting.filter (fun i => (s.owes i).isSome) = hist.waiting :=
  List.filter_eq_self.mpr fun i hi => (hI.waiting i).mp hi

/-- A step that neither changes the flag nor announces a change. -/
theorem InStep.frame (hI : InStep (s, hist)) (hstatus : t.control.status = s.control.status)
    (hsignals : t.control.signals = s.control.signals) (howes : ∀ i, t.owes i = s.owes i) :
    InStep (t, hist.after s act t) := by
  have heq : t.owes = s.owes := funext howes
  have hafter : hist.after s act t = hist := by
    simp only [FlagHistory.after, hstatus, if_true, heq, hI.filter_waiting]
  rw [hafter]
  exact ⟨by rw [hsignals, heq]; exact hI.changes, by rw [heq]; exact hI.waiting, hI.nodup⟩

/-- A step that changes the flag, of a handler that is going to announce that. -/
theorem InStep.changed (hI : InStep (s, hist)) (hstatus : t.control.status ≠ s.control.status)
    (hsignals : t.control.signals = s.control.signals) (hbefore : s.owes i = none)
    (howes : ∀ j, t.owes j = if j = i then some t.control.status else s.owes j) :
    InStep (t, hist.after s (.advance i f) t) := by
  have hnot : i ∉ hist.waiting := by
    intro hi
    have := (hI.waiting i).mp hi
    simp [hbefore] at this
  have hsame : ∀ j ∈ hist.waiting, t.owes j = s.owes j := by
    intro j hj
    rw [howes, if_neg (by rintro rfl; exact hnot hj)]
  have hafter : hist.after s (.advance i f) t =
      { changes := hist.changes ++ [t.control.status], waiting := hist.waiting ++ [i] } := by
    simp only [FlagHistory.after, if_neg (Ne.symm hstatus), Act.handler, Option.toList_some]
    congr 1
    rw [List.filter_eq_self]
    intro j hj
    rcases List.mem_append.mp hj with hj | hj
    · rw [hsame j hj]
      exact (hI.waiting j).mp hj
    · rw [howes, if_pos (List.mem_singleton.mp hj)]
      rfl
  rw [hafter]
  refine ⟨?_, ?_, ?_⟩
  · have hlast : t.owes i = some t.control.status := by rw [howes, if_pos rfl]
    have hchanges := hI.changes
    simp only at hchanges
    rw [List.filterMap_append, List.filterMap_congr hsame, hsignals, hchanges]
    simp [hlast]
  · intro j
    simp only [List.mem_append, List.mem_singleton, hI.waiting, howes]
    split <;> simp_all
  · exact List.nodup_append.mpr ⟨hI.nodup, by simp, by rintro j hj k hk rfl; simp_all⟩

/-- A step that announces the change that has waited longest. -/
theorem InStep.announced {b : Bool} (hI : InStep (s, hist)) (hhead : hist.waiting.head? = some i)
    (hstatus : t.control.status = s.control.status) (hbefore : s.owes i = some b)
    (hsignals : t.control.signals = s.control.signals ++ [b])
    (howes : ∀ j, t.owes j = if j = i then none else s.owes j) :
    InStep (t, hist.after s act t) := by
  obtain ⟨rest, hrest⟩ : ∃ rest, hist.waiting = i :: rest := by
    cases hw : hist.waiting with
    | nil => simp [hw] at hhead
    | cons j rest => simp only [hw, List.head?_cons, Option.some.injEq] at hhead; exact ⟨rest, by rw [hhead]⟩
  have hnodup := hI.nodup
  rw [hrest, List.nodup_cons] at hnodup
  have hsame : ∀ j ∈ rest, t.owes j = s.owes j := by
    intro j hj
    rw [howes, if_neg (by rintro rfl; exact hnodup.1 hj)]
  have hafter : hist.after s act t = { hist with waiting := rest } := by
    simp only [FlagHistory.after, hstatus, if_true, hrest]
    congr 1
    rw [List.filter_cons_of_neg (by simp [howes]), List.filter_eq_self]
    intro j hj
    rw [hsame j hj]
    exact (hI.waiting j).mp (by rw [hrest]; exact List.mem_cons_of_mem _ hj)
  rw [hafter]
  refine ⟨?_, ?_, hnodup.2⟩
  · have := hI.changes
    simp only [hrest, List.filterMap_cons, hbefore] at this
    simp only [List.filterMap_congr hsame, hsignals, this, List.append_assoc, List.singleton_append]
  · intro j
    have := hI.waiting j
    simp only [hrest, List.mem_cons] at this
    simp only [howes]
    split
    · rename_i hji
      simp [hji, hnodup.1]
    · rename_i hji
      rw [← this]
      simp [hji]

/-- A Snooze that swaps the state while the alarm is armed does not change the flag. -/
theorem announces_of_changed {job : Job} (hi : s.handlers[i]? = some ⟨request, .swap job⟩)
    (hsnooze : snoozesArmed s (.advance i f) = true) (hstatus : job.desired.status.isArmed ≠ s.control.status) :
    job.announces = true := by
  cases job with
  | disarm => rfl
  | schedule sch announces =>
    cases announces with
    | true => rfl
    | false =>
      simp only [snoozesArmed, next_advance hi] at hsnooze
      exact absurd hsnooze.symm hstatus

theorem InStep.step {p q : Sys × FlagHistory} (hI : InStep p) (hok : InOrder p act)
    (hs : step.track FlagHistory.after p act = some q) : InStep q := by
  obtain ⟨s, hist⟩ := p
  obtain ⟨t, hist'⟩ := q
  obtain ⟨hstep, hhist⟩ := Machine.track_eq_some_iff.mp hs
  simp only at hstep hhist
  subst hhist
  obtain ⟨hrestart, horder, hsnooze⟩ := hok
  cases stepped_of_step hstep with
  | requested r =>
    refine hI.frame rfl rfl fun j => ?_
    cases hj : s.handlers[j]? with
    | some hd => simp [Sys.owes, hj, Pool.add_of_some hj]
    | none =>
      cases hj' : (s.handlers ++ [⟨r, .begin⟩])[j]? with
      | none => simp [Sys.owes, hj, hj']
      | some hd =>
        rcases Pool.of_add hj' with ⟨-, rfl⟩ | hj''
        · simp [Sys.owes, hj, hj', Pc.owes]
        · rw [hj] at hj''
          cases hj''
  | @advanced i f request pc pc' control hi hm =>
    cases flagged_of_moved hm with
    | same hstatus hsignals howes =>
      refine hI.frame hstatus hsignals fun j => ?_
      rw [owes_set hi]
      split
      · rename_i hji
        rw [hji, owes_self hi, howes]
      · rfl
    | @changed job _ _ hstatus hdesired hsignals howes =>
      rw [announces_of_changed hi hsnooze (hdesired ▸ hstatus)] at howes
      refine hI.changed (i := i) hstatus hsignals (owes_self hi) fun j => ?_
      rw [owes_set hi, howes]
      rfl
    | @announced job transition _ _ b hstatus howes hsignals hend =>
      simp only [announcesInOrder, next_advance hi, howes, Option.isNone_some, Bool.false_or,
        decide_eq_true_eq] at horder
      refine hI.announced (i := i) horder hstatus ((owes_self hi).trans howes) hsignals fun j => ?_
      rw [owes_set hi, hend]
  | ran ha hi hlive hwake hphase => exact hI.frame rfl rfl fun _ => rfl
  | ticked ms wall => exact hI.frame rfl rfl fun _ => rfl
  | refiled fs => exact hI.frame rfl rfl fun _ => rfl
  | restarted ha hd => cases hrestart

theorem owes_of_allDone (hdone : AllDone s) : s.owes i = none := by
  unfold Sys.owes
  cases hi : s.handlers[i]? with
  | none => rfl
  | some hd =>
    obtain ⟨reply, hpc⟩ := Pc.eq_done (hdone hd (List.mem_of_getElem? hi))
    simp [hpc, Pc.owes]

/-- In a run of one process, from its start, in which the signals are in order: the history is that
of the armed flag; its first changes are the signals emitted so far, which alternate, and the others
are going to be announced by handlers on their way. When all calls have returned, the signals are
the changes, and the last is the status. -/
theorem signals_follow_flag {host : Host} {env : Env} {daemon : AlarmDaemon} {as : List Act}
    (h : Machine.Run (step.track FlagHistory.after) InOrder (fresh host env daemon, {}) as (s, hist)) :
    ChangeLog daemon.status.isArmed hist.changes s.control.status ∧
      hist.changes = s.control.signals ++ hist.waiting.filterMap s.owes ∧
      (daemon.status.isArmed :: s.control.signals).IsChain (· ≠ ·) ∧
      (AllDone s → s.control.signals = hist.changes ∧
        s.control.signals.getLastD daemon.status.isArmed = s.control.status) := by
  have hinit : InStep (fresh host env daemon, {}) := by
    refine ⟨rfl, fun i => ?_, .nil⟩
    simp [fresh, Sys.owes]
  have hI := h.invariant (fun _ _ _ hI hok hs => hI.step hok hs) hinit
  have hlog : ChangeLog daemon.status.isArmed hist.changes s.control.status := log_of_run h
  have hchanges : hist.changes = s.control.signals ++ hist.waiting.filterMap s.owes := hI.changes
  refine ⟨hlog, hchanges, ?_, fun hdone => ?_⟩
  · rw [hchanges] at hlog
    exact hlog.alternate_of_append
  · have hnone : hist.waiting.filterMap s.owes = [] := by
      rw [List.filterMap_eq_nil_iff]
      exact fun i _ => owes_of_allDone hdone
    rw [hnone, List.append_nil] at hchanges
    rw [hchanges] at hlog
    exact ⟨hchanges.symm, hlog.last⟩

/-- A Disarm and an Arm, of which the one that swaps first announces first. -/
def announcingInTurn : List Act :=
  [.request (.arm "builtin:horn"), .request .disarm] ++ advances 0 4 ++ advances 1 5 ++ advances 0 4 ++
    advances 1 1

theorem signals_follow_flag_arm_disarm :
    ∃ s hist, Machine.Run (step.track FlagHistory.after) InOrder (hornProcess, {}) announcingInTurn (s, hist) ∧
      AllDone s ∧ hist.changes = [true, false] ∧ s.control.signals = hist.changes ∧
      s.control.signals.getLastD false = s.control.status := by
  obtain ⟨⟨s, hist⟩, h, hdone, hchanges⟩ : ∃ p : Sys × FlagHistory,
      Machine.Run (step.track FlagHistory.after) InOrder (hornProcess, {}) announcingInTurn p ∧
        AllDone p.1 ∧ p.2.changes = [true, false] := Machine.Run.exists_of_execIf (by decide)
  exact ⟨s, hist, h, hdone, hchanges, (signals_follow_flag h).2.2.2 hdone⟩

/-- A Disarm announces its change before an Arm announces its earlier one. -/
def announcingLate : List Act :=
  [.request (.arm "builtin:horn"), .request .disarm] ++ advances 0 4 ++ advances 1 6 ++ advances 0 4

/-- A Disarm from its start to its end between the reading of the current sound by a Snooze and
its swap. -/
def snoozingDisarmed : List Act :=
  arming ++ [.request (.snooze 60), .request .disarm] ++ advances 1 1 ++ advances 2 6 ++ advances 1 7

/-- All calls have returned. In the first run the last signal is not the status; in the second
the last change is not announced. -/
theorem signals_out_of_order :
    (∃ s hist, Machine.Run (step.track FlagHistory.after) Machine.anyStep (hornProcess, {}) announcingLate
      (s, hist) ∧ AllDone s ∧ hist.changes = [true, false] ∧ s.control.signals = [false, true] ∧
      s.control.status = false) ∧
    ∃ s hist, Machine.Run (step.track FlagHistory.after) Machine.anyStep (hornProcess, {}) snoozingDisarmed
      (s, hist) ∧ AllDone s ∧ hist.changes = [true, false, true] ∧ s.control.signals = [true, false] ∧
      s.control.status = true := by
  constructor
  · obtain ⟨⟨s, hist⟩, h, hend⟩ : ∃ p : Sys × FlagHistory,
        Machine.Run (step.track FlagHistory.after) Machine.anyStep (hornProcess, {}) announcingLate p ∧
          AllDone p.1 ∧ p.2.changes = [true, false] ∧ p.1.control.signals = [false, true] ∧
          p.1.control.status = false := Machine.Run.exists_of_execIf (by decide)
    exact ⟨s, hist, h, hend⟩
  · obtain ⟨⟨s, hist⟩, h, hend⟩ : ∃ p : Sys × FlagHistory,
        Machine.Run (step.track FlagHistory.after) Machine.anyStep (hornProcess, {}) snoozingDisarmed p ∧
          AllDone p.1 ∧ p.2.changes = [true, false, true] ∧ p.1.control.signals = [true, false] ∧
          p.1.control.status = true := Machine.Run.exists_of_execIf (by decide)
    exact ⟨s, hist, h, hend⟩

end HelmAlarm.Ipc
