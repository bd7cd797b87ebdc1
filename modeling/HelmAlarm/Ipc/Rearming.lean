import HelmAlarm.Ipc.Triggers

/-!
# Arms and Snoozes at the same time

The last call to swap the state, the last to store its handle and the last to
spawn its trigger can be three different ones. `one_trigger_left`: when no handle
is lost, they agree in the end. Once all calls have returned there is exactly one
live trigger, its handle is the one held, and it is the trigger of the call whose
state the daemon has.

The argument is that after a call has cancelled, one of three things is the case
(`Latest`): a call has cancelled and not yet swapped; or the call whose state the
daemon has, has yet to store its handle; or its trigger is the pending one.
-/

namespace HelmAlarm.Ipc

open HelmAlarm.Library HelmAlarm.Daemon HelmAlarm.Audio

variable {s t : Sys} {act : Act} {i n₀ k₀ : ℕ} {f : Faults} {request : Request} {pc pc' : Pc} {control : Control}

/-! ### Handles in range -/

/-- Every handle is that of a task. -/
structure InRange (s : Sys) : Prop where
  /-- The one that is held. -/
  held : ∀ n, s.control.triggerTask = some n → n < s.control.tasks.length
  /-- Those about to be stored. -/
  owned : ∀ hd ∈ s.handlers, ∀ n, hd.pc.handle = some n → n < s.control.tasks.length

theorem InRange.moved (h : InRange s) (hi : s.handlers[i]? = some ⟨request, pc⟩)
    (hm : Moved s.host request s.control pc control pc') :
    InRange { s with control := control, handlers := s.handlers.set i ⟨request, pc'⟩ } := by
  cases hm with
  | rejected | accepted | stopped | swapped => exact ⟨h.held, Pool.forall_set h.owned (by simp [Pc.handle])⟩
  | @kept job | @saved job =>
    exact ⟨h.held, Pool.forall_set h.owned (by cases job <;> simp [Pc.handle, Job.afterTransition])⟩
  | announced =>
    refine ⟨fun n hn => ?_, Pool.forall_set (fun hd hm n hn => ?_) (by simp [Pc.handle])⟩
    · have := h.held n (by split at hn <;> simpa using hn)
      simp only
      split <;> simpa using this
    · have := h.owned hd hm n hn
      simp only
      split <;> simpa using this
  | taken =>
    refine ⟨by simp, Pool.forall_set (fun hd hm n hn => ?_) (by simp [Pc.handle])⟩
    simpa using h.owned hd hm n hn
  | spawned =>
    refine ⟨fun n hn => ?_, Pool.forall_set (fun hd hm n hn => ?_) fun n hn => ?_⟩
    · have := h.held n hn
      simp only [List.length_append, List.length_singleton]
      omega
    · have := h.owned hd hm n hn
      simp only [List.length_append, List.length_singleton]
      omega
    · obtain rfl := Option.some.inj hn
      simp
  | stored =>
    refine ⟨fun n hn => ?_, Pool.forall_set h.owned (by simp [Pc.handle])⟩
    exact h.owned _ (List.mem_of_getElem? hi) n hn

theorem InRange.step (h : InRange s) (hs : step s act = some t) : InRange t := by
  cases stepped_of_step hs with
  | requested r => exact ⟨h.held, Pool.forall_add h.owned (by simp [Pc.handle])⟩
  | advanced hi hm => exact h.moved hi hm
  | ran ha hi hlive hwake hphase => exact ⟨by simpa using h.held, by simpa using h.owned⟩
  | ticked ms wall => exact ⟨h.held, h.owned⟩
  | refiled fs => exact ⟨h.held, h.owned⟩
  | restarted ha hd => exact ⟨by simp [Control.new], by simp⟩

theorem inRange_of_run {host : Host} {env : Env} {daemon : AlarmDaemon} {ok : Sys → Act → Prop} {as : List Act}
    (h : Machine.Run step ok (fresh host env daemon) as s) : InRange s :=
  h.invariant (I := InRange) (fun _ _ _ hI _ hs => hI.step hs) ⟨by simp [fresh, Control.new], by simp [fresh]⟩

/-- Every trigger was set up, at some time, to sleep for the delay it was scheduled with. -/
def Timed (s : Sys) : Prop :=
  ∀ task ∈ s.control.tasks, ∃ began ≤ s.host.mono, task.deadline = began + task.schedule.delay

theorem Timed.step (h : Timed s) (hs : step s act = some t) : Timed t := by
  cases stepped_of_step hs with
  | requested r => exact h
  | advanced hi hm =>
    cases hm with
    | spawned => exact Pool.forall_add h ⟨s.host.mono, le_rfl, rfl⟩
    | announced =>
      intro task hm
      refine h task ?_
      simp only at hm
      split at hm <;> simpa using hm
    | taken =>
      intro task hm
      obtain ⟨n, hn⟩ := List.mem_iff_getElem?.mp hm
      simp only [Control.tasks_takeTrigger] at hn
      split at hn
      · obtain ⟨task', hn', rfl⟩ := Option.map_eq_some_iff.mp hn
        rw [Task.deadline_abort, Task.schedule_abort]
        exact h task' (List.mem_of_getElem? hn')
      · exact h task (List.mem_of_getElem? hn)
    | _ => exact h
  | @ran act n task phase player ha hi hlive hwake hphase =>
    have htask := h task (List.mem_of_getElem? hi)
    exact Pool.forall_set h htask
  | ticked ms wall =>
    intro task hm
    obtain ⟨began, hle, hd⟩ := h task hm
    exact ⟨began, hle.trans (Nat.le_add_right _ _), hd⟩
  | refiled fs => exact h
  | restarted ha hd =>
    intro task hm
    obtain ⟨task', hm', rfl⟩ := List.mem_map.mp hm
    exact h task' hm'

/-! ### The phase -/

/-- Only Arms and Snoozes are called, the process is not restarted, and no trigger wakes but the
first `k₀`, which were there before. -/
def rearmsOnly (k₀ : ℕ) : Act → Bool
  | .request r => !r.isAck
  | .wake n => n < k₀
  | .restart _ => false
  | _ => true

/-- The steps of a phase of Arms and Snoozes that lose no handle. -/
def RearmPhase (k₀ : ℕ) (s : Sys) (act : Act) : Prop := rearmsOnly k₀ act = true ∧ KeepsHandles s act

instance (s : Sys) (act : Act) : Decidable (RearmPhase k₀ s act) := inferInstanceAs (Decidable (_ ∧ _))

/-- The call is a Disarm or Dismiss. -/
def Handler.acks (hd : Handler) : Bool :=
  match hd.pc with
  | .begin => hd.request.isAck
  | .takeTrigger .disarm | .stopPlayer .disarm | .swap .disarm | .save .disarm _ _ | .announce .disarm _ => true
  | _ => false

/-- The trigger of a handler that has yet to store its handle is new and sleeps. -/
structure Spawning (n₀ k₀ : ℕ) (s : Sys) : Prop where
  /-- Handles are in range. -/
  inRange : InRange s
  /-- The old tasks are there. -/
  count : k₀ ≤ s.control.tasks.length
  /-- The old calls are there. -/
  calls : n₀ ≤ s.handlers.length
  /-- No call is a Disarm or Dismiss. -/
  rearms : ∀ hd ∈ s.handlers, hd.acks = false
  /-- The calls of before have returned. -/
  old : ∀ (i : ℕ) (hd : Handler), i < n₀ → s.handlers[i]? = some hd → hd.pc.isDone = true
  /-- A trigger whose handle is about to be stored is new, sleeps, and is not the pending one. -/
  asleep : ∀ (i : ℕ) (r : Request) (sch : Schedule) (announces : Bool) (transition : Transition) (n : ℕ),
    s.handlers[i]? = some ⟨r, .store sch announces transition n⟩ →
    k₀ ≤ n ∧ s.control.triggerTask ≠ some n ∧ ∃ deadline, s.control.tasks[n]? = some ⟨sch, deadline, .sleeping⟩
  /-- Different calls have different triggers. -/
  distinct : ∀ (i j : ℕ) (hd hd' : Handler) (n : ℕ), s.handlers[i]? = some hd → s.handlers[j]? = some hd' →
    hd.pc.handle = some n → hd'.pc.handle = some n → i = j

/-- A handler that has no handle moves to where it has none. -/
theorem Spawning.frame (h : Spawning n₀ k₀ s) (hi : s.handlers[i]? = some ⟨request, pc⟩)
    (hm : Moved s.host request s.control pc control pc') (hdone : pc.isDone = false)
    (hp' : pc'.handle = none) (hacks : Handler.acks ⟨request, pc'⟩ = false)
    (hlen : s.control.tasks.length ≤ control.tasks.length)
    (hslot : ∀ n, control.triggerTask = some n → s.control.triggerTask = some n ∨ pc.handle = some n)
    (htasks : ∀ n task, s.control.tasks[n]? = some task → s.control.triggerTask ≠ some n →
      control.tasks[n]? = some task) :
    Spawning n₀ k₀ { s with control := control, handlers := s.handlers.set i ⟨request, pc'⟩ } where
  inRange := h.inRange.moved hi hm
  count := h.count.trans hlen
  calls := by simpa using h.calls
  rearms := Pool.forall_set h.rearms hacks
  old := by
    intro j hd hj hget
    rcases Pool.of_set hget with ⟨rfl, -⟩ | ⟨-, hget⟩
    · have := h.old j _ hj hi
      simp [hdone] at this
    · exact h.old j hd hj hget
  asleep := by
    intro j r sch announces transition n hget
    rcases Pool.of_set hget with ⟨-, he⟩ | ⟨hji, hget⟩
    · rw [← (Handler.mk.inj he).2] at hp'
      cases hp'
    · obtain ⟨hn, hne, deadline, htask⟩ := h.asleep j r sch announces transition n hget
      refine ⟨hn, fun hc => ?_, deadline, htasks n _ htask hne⟩
      rcases hslot n hc with hs | hs
      · exact hne hs
      · exact hji (h.distinct j i _ _ n hget hi rfl hs)
  distinct := by
    intro j k hd hd' n hj hk hjn hkn
    rcases Pool.of_set hj with ⟨-, rfl⟩ | ⟨-, hj⟩
    · rw [hp'] at hjn; cases hjn
    rcases Pool.of_set hk with ⟨-, rfl⟩ | ⟨-, hk⟩
    · rw [hp'] at hkn; cases hkn
    exact h.distinct j k hd hd' n hj hk hjn hkn

/-- A handle that is held is that of a task that is there. -/
theorem InRange.handle_ne (h : InRange s) {j : ℕ} {hd : Handler} (hj : s.handlers[j]? = some hd) :
    hd.pc.handle ≠ some s.control.tasks.length :=
  fun hn => lt_irrefl _ (h.owned hd (List.mem_of_getElem? hj) _ hn)

/-- A handler spawns its trigger. -/
theorem Spawning.spawned {sch : Schedule} {announces : Bool} {transition : Transition} (h : Spawning n₀ k₀ s)
    (hi : s.handlers[i]? = some ⟨request, .spawn sch announces transition⟩)
    (hm : Moved s.host request s.control (.spawn sch announces transition) (s.control.spawn s.host sch).2
      (.store sch announces transition s.control.tasks.length)) :
    Spawning n₀ k₀ { s with
      control := (s.control.spawn s.host sch).2
      handlers := s.handlers.set i ⟨request, .store sch announces transition s.control.tasks.length⟩ } := by
  refine ⟨h.inRange.moved hi hm, by simpa [Control.spawn] using Nat.le_succ_of_le h.count, by simpa using h.calls,
    Pool.forall_set h.rearms rfl, ?_, ?_, ?_⟩
  · intro j hd hj hget
    rcases Pool.of_set hget with ⟨rfl, -⟩ | ⟨-, hget⟩
    · cases h.old j _ hj hi
    · exact h.old j hd hj hget
  · intro j r sch' announces' transition' n hget
    rcases Pool.of_set hget with ⟨-, he⟩ | ⟨-, hget⟩
    · obtain ⟨-, he⟩ := Handler.mk.inj he
      obtain ⟨rfl, rfl, rfl, rfl⟩ := Pc.store.inj he
      exact ⟨h.count, fun hc => lt_irrefl _ (h.inRange.held _ hc), _, Pool.add_self⟩
    · obtain ⟨hn, hne, deadline, htask⟩ := h.asleep j r sch' announces' transition' n hget
      exact ⟨hn, hne, deadline, Pool.add_of_some htask⟩
  · intro j k hd hd' n hj hk hjn hkn
    rcases Pool.of_set hj with ⟨rfl, rfl⟩ | ⟨-, hj'⟩ <;> rcases Pool.of_set hk with ⟨rfl, rfl⟩ | ⟨-, hk'⟩
    · rfl
    · obtain rfl := Option.some.inj hjn
      exact absurd hkn (h.inRange.handle_ne hk')
    · obtain rfl := Option.some.inj hkn
      exact absurd hjn (h.inRange.handle_ne hj')
    · exact h.distinct j k hd hd' n hj' hk' hjn hkn

theorem Spawning.moved (h : Spawning n₀ k₀ s) (hi : s.handlers[i]? = some ⟨request, pc⟩)
    (hm : Moved s.host request s.control pc control pc') :
    Spawning n₀ k₀ { s with control := control, handlers := s.handlers.set i ⟨request, pc'⟩ } := by
  have hacks := h.rearms _ (List.mem_of_getElem? hi)
  have hm' := hm
  cases hm with
  | rejected => exact h.frame hi hm' rfl rfl rfl le_rfl (fun _ => .inl) fun _ _ ht _ => ht
  | @accepted job hb =>
    have hjob : Handler.acks ⟨request, .takeTrigger job⟩ = false := by
      cases job with
      | schedule sch announces => rfl
      | disarm => rw [Handler.acks, Control.isAck_of_begin hb] at hacks; cases hacks
    exact h.frame hi hm' rfl rfl hjob le_rfl (fun _ => .inl) fun _ _ ht _ => ht
  | @stopped job =>
    cases job with
    | schedule sch announces => exact h.frame hi hm' rfl rfl rfl le_rfl (fun _ => .inl) fun _ _ ht _ => ht
    | disarm => cases hacks
  | @kept job =>
    cases job with
    | schedule sch announces => exact h.frame hi hm' rfl rfl rfl le_rfl (fun _ => .inl) fun _ _ ht _ => ht
    | disarm => cases hacks
  | @swapped job =>
    cases job with
    | schedule sch announces => exact h.frame hi hm' rfl rfl rfl le_rfl (fun _ => .inl) fun _ _ ht _ => ht
    | disarm => cases hacks
  | @saved job =>
    cases job with
    | schedule sch announces => exact h.frame hi hm' rfl rfl rfl le_rfl (fun _ => .inl) fun _ _ ht _ => ht
    | disarm => cases hacks
  | announced =>
    refine h.frame hi hm' rfl rfl rfl (by split <;> simp) (fun n hn => .inl ?_) fun n task ht _ => ?_
    · split at hn <;> simpa using hn
    · split <;> simpa using ht
  | @taken job =>
    cases job with
    | disarm => cases hacks
    | schedule sch announces =>
      refine h.frame hi hm' rfl rfl rfl (by simp) (by simp) fun n task ht hne => ?_
      rwa [Control.tasks_takeTrigger, if_neg hne]
  | stored => exact h.frame hi hm' rfl rfl rfl le_rfl (fun _ => .inr) fun _ _ ht _ => ht
  | spawned => exact h.spawned hi hm'

theorem Spawning.step (h : Spawning n₀ k₀ s) (hok : rearmsOnly k₀ act = true) (hs : step s act = some t) :
    Spawning n₀ k₀ t := by
  cases stepped_of_step hs with
  | requested r =>
    have hr : r.isAck = false := by simpa [rearmsOnly] using hok
    have hcalls := h.calls
    refine ⟨h.inRange.step hs, h.count, by simp; omega, Pool.forall_add h.rearms hr, ?_, ?_, ?_⟩
    · intro j hd hj hget
      rcases Pool.of_add hget with ⟨rfl, -⟩ | hget
      · omega
      · exact h.old j hd hj hget
    · intro j r' sch announces transition n hget
      rcases Pool.of_add hget with ⟨-, he⟩ | hget
      · cases (Handler.mk.inj he).2
      · exact h.asleep j r' sch announces transition n hget
    · intro j k hd hd' n hj hk hjn hkn
      rcases Pool.of_add hj with ⟨-, rfl⟩ | hj
      · cases hjn
      rcases Pool.of_add hk with ⟨-, rfl⟩ | hk
      · cases hkn
      exact h.distinct j k hd hd' n hj hk hjn hkn
  | advanced hi hm => exact h.moved hi hm
  | @ran act m task phase player ha hi hlive hwake hphase =>
    refine ⟨h.inRange.step hs, by simpa using h.count, h.calls, h.rearms, h.old, ?_, h.distinct⟩
    intro j r sch announces transition n hget
    obtain ⟨hn, hne, deadline, htask⟩ := h.asleep j r sch announces transition n hget
    refine ⟨hn, hne, deadline, ?_⟩
    have hmn : n ≠ m := by
      rintro rfl
      obtain rfl := Option.some.inj (htask.symm.trans hi)
      rw [hwake rfl] at hok
      have : n < k₀ := by simpa [rearmsOnly] using hok
      omega
    exact (Pool.set_of_ne hmn).trans htask
  | ticked ms wall => exact ⟨h.inRange.step hs, h.count, h.calls, h.rearms, h.old, h.asleep, h.distinct⟩
  | refiled fs => exact ⟨h.inRange.step hs, h.count, h.calls, h.rearms, h.old, h.asleep, h.distinct⟩
  | restarted ha hd => cases hok

/-! ### The call whose state the daemon has -/

/-- The call has cancelled, and not yet swapped the state. -/
def Pc.reschedules : Pc → Bool
  | .stopPlayer (.schedule _ _) | .swap (.schedule _ _) => true
  | _ => false

/-- What a call that has swapped the state is going to store the trigger of. -/
def Pc.arming : Pc → Option Schedule
  | .save (.schedule sch _) _ _ | .spawn sch _ _ | .store sch _ _ _ => some sch
  | _ => none

/-- What a call has stored the trigger of. -/
def Pc.scheduled : Pc → Option Schedule
  | .announce (.schedule sch _) _ | .done (.ok (.schedule sch _)) => some sch
  | _ => none

/-- The call has not cancelled. -/
def Pc.unstarted : Pc → Bool
  | .begin | .takeTrigger _ | .done (.error _) => true
  | _ => false

theorem Pc.of_unstarted {pc : Pc} (h : pc.unstarted = true) :
    pc.reschedules = false ∧ pc.arming = none ∧ pc.scheduled = none := by
  unfold Pc.unstarted at h
  split at h
  · exact ⟨rfl, rfl, rfl⟩
  · exact ⟨rfl, rfl, rfl⟩
  · exact ⟨rfl, rfl, rfl⟩
  · cases h

/-- The state will be, is being, or has been followed by its trigger. -/
inductive Latest (n₀ k₀ : ℕ) (s : Sys) : Prop where
  /-- A call has cancelled, and not yet swapped the state. -/
  | cancelled {i : ℕ} {hd : Handler} (hi : n₀ ≤ i) (hget : s.handlers[i]? = some hd)
      (hp : hd.pc.reschedules = true)
  /-- The call whose state the daemon has, has yet to store its handle. -/
  | arming {i : ℕ} {hd : Handler} {sch : Schedule} (hi : n₀ ≤ i) (hget : s.handlers[i]? = some hd)
      (hp : hd.pc.arming = some sch) (hinner : s.control.daemon.inner = sch.desired)
  /-- Its trigger is the pending one, is new and sleeps. -/
  | pending {i n : ℕ} {hd : Handler} {task : Task} (hi : n₀ ≤ i) (hget : s.handlers[i]? = some hd)
      (hp : hd.pc.scheduled = some task.schedule) (hinner : s.control.daemon.inner = task.schedule.desired)
      (hslot : s.control.triggerTask = some n) (hn : k₀ ≤ n) (htask : s.control.tasks[n]? = some task)
      (hsleep : task.phase = .sleeping)

/-- A step that keeps the state and the tasks, and in which the call that moves stays what it
is, changes nothing of this. -/
theorem Latest.frame (h : Latest n₀ k₀ s) (hi : s.handlers[i]? = some ⟨request, pc⟩)
    (hres : pc.reschedules = true → pc'.reschedules = true)
    (harm : ∀ sch, pc.arming = some sch → pc'.arming = some sch)
    (hsch : ∀ sch, pc.scheduled = some sch → pc'.scheduled = some sch)
    (hinner : control.daemon.inner = s.control.daemon.inner)
    (hslot : control.triggerTask = s.control.triggerTask)
    (htasks : ∀ (n : ℕ) (task : Task), s.control.tasks[n]? = some task → control.tasks[n]? = some task) :
    Latest n₀ k₀ { s with control := control, handlers := s.handlers.set i ⟨request, pc'⟩ } := by
  -- a call is where it was, or is the one that moved
  have hmove : ∀ (j : ℕ) (hd : Handler), s.handlers[j]? = some hd →
      (s.handlers.set i ⟨request, pc'⟩)[j]? = some hd ∨
      hd = ⟨request, pc⟩ ∧ (s.handlers.set i ⟨request, pc'⟩)[j]? = some ⟨request, pc'⟩ := by
    intro j hd hj
    by_cases hji : j = i
    · subst hji
      exact .inr ⟨Option.some.inj (hj.symm.trans hi), Pool.set_self hi⟩
    · exact .inl ((Pool.set_of_ne hji).trans hj)
  cases h with
  | @cancelled j hd hj hget hp =>
    rcases hmove j hd hget with hget' | ⟨rfl, hget'⟩
    · exact .cancelled hj hget' hp
    · exact .cancelled hj hget' (hres hp)
  | @arming j hd sch hj hget hp hin =>
    rcases hmove j hd hget with hget' | ⟨rfl, hget'⟩
    · exact .arming hj hget' hp (hinner.trans hin)
    · exact .arming hj hget' (harm sch hp) (hinner.trans hin)
  | @pending j n hd task hj hget hp hin hs hn ht hsleep =>
    rcases hmove j hd hget with hget' | ⟨rfl, hget'⟩
    · exact .pending hj hget' hp (hinner.trans hin) (hslot.trans hs) hn (htasks n task ht) hsleep
    · exact .pending hj hget' (hsch _ hp) (hinner.trans hin) (hslot.trans hs) hn (htasks n task ht) hsleep

/-- Nothing of this changes while the calls, the state, the held handle and the new triggers that sleep stay
what they are. -/
theorem Latest.kept (h : Latest n₀ k₀ s)
    (hhandlers : ∀ (i : ℕ) (hd : Handler), s.handlers[i]? = some hd → t.handlers[i]? = some hd)
    (hinner : t.control.daemon.inner = s.control.daemon.inner) (hslot : t.control.triggerTask = s.control.triggerTask)
    (htasks : ∀ (n : ℕ) (task : Task), k₀ ≤ n → s.control.tasks[n]? = some task → task.phase = .sleeping →
      t.control.tasks[n]? = some task) : Latest n₀ k₀ t := by
  cases h with
  | cancelled hi hget hp => exact .cancelled hi (hhandlers _ _ hget) hp
  | arming hi hget hp hin => exact .arming hi (hhandlers _ _ hget) hp (hinner.trans hin)
  | pending hi hget hp hin hs hn ht hsleep =>
    exact .pending hi (hhandlers _ _ hget) hp (hinner.trans hin) (hslot.trans hs) hn (htasks _ _ hn ht hsleep) hsleep

/-- The invariant of the phase. -/
structure RearmInv (n₀ k₀ : ℕ) (s : Sys) : Prop where
  /-- No live trigger has lost its handle. -/
  held : Held s
  /-- New triggers sleep, and are different. -/
  spawning : Spawning n₀ k₀ s
  /-- No call of the phase has cancelled yet, or the state is followed by its trigger. -/
  latest : (∀ (i : ℕ) (hd : Handler), n₀ ≤ i → s.handlers[i]? = some hd → hd.pc.unstarted = true) ∨ Latest n₀ k₀ s

/-- A call that stays unstarted changes nothing of this. -/
theorem RearmInv.latest_of_unstarted (h : RearmInv n₀ k₀ s) (hi : s.handlers[i]? = some ⟨request, pc⟩)
    (hp : pc.unstarted = true) (hp' : pc'.unstarted = true) :
    (∀ (j : ℕ) (hd : Handler), n₀ ≤ j → (s.handlers.set i ⟨request, pc'⟩)[j]? = some hd → hd.pc.unstarted = true) ∨
      Latest n₀ k₀ { s with handlers := s.handlers.set i ⟨request, pc'⟩ } := by
  rcases h.latest with hun | hlat
  · refine .inl fun j hd hj hget => ?_
    rcases Pool.of_set hget with ⟨-, rfl⟩ | ⟨-, hget⟩
    · exact hp'
    · exact hun j hd hj hget
  · obtain ⟨hres, harm, hsch⟩ := Pc.of_unstarted hp
    exact .inr (hlat.frame hi (by simp [hres]) (by simp [harm]) (by simp [hsch]) rfl rfl fun _ _ ht => ht)

/-- Once a call has cancelled, the state is followed by its trigger. -/
theorem RearmInv.latest_of_started (h : RearmInv n₀ k₀ s) (hi : s.handlers[i]? = some ⟨request, pc⟩)
    (hp : pc.unstarted = false) (hnew : n₀ ≤ i) : Latest n₀ k₀ s := by
  rcases h.latest with hun | hlat
  · have := hun i _ hnew hi
    rw [hp] at this
    cases this
  · exact hlat

theorem RearmInv.moved (h : RearmInv n₀ k₀ s) (hi : s.handlers[i]? = some ⟨request, pc⟩)
    (hm : Moved s.host request s.control pc control pc') (hkeep : KeepsHandles s (.advance i f)) :
    RearmInv n₀ k₀ { s with control := control, handlers := s.handlers.set i ⟨request, pc'⟩ } := by
  refine ⟨h.held.moved hi hm hkeep, h.spawning.moved hi hm, ?_⟩
  have hacks := h.spawning.rearms _ (List.mem_of_getElem? hi)
  have hnew : pc.isDone = false → n₀ ≤ i := by
    intro hdone
    apply not_lt.mp
    intro hlt
    rw [h.spawning.old i _ hlt hi] at hdone
    cases hdone
  have hstarted : pc.unstarted = false → pc.isDone = false → Latest n₀ k₀ s :=
    fun hun hdone => h.latest_of_started hi hun (hnew hdone)
  cases hm with
  | rejected => exact h.latest_of_unstarted hi rfl rfl
  | accepted => exact h.latest_of_unstarted hi rfl rfl
  | @taken job =>
    cases job with
    | disarm => cases hacks
    | schedule sch announces => exact .inr (.cancelled (hnew rfl) (Pool.set_self hi) rfl)
  | @stopped job =>
    cases job with
    | disarm => cases hacks
    | schedule sch announces =>
      exact .inr ((hstarted rfl rfl).frame hi (fun _ => rfl) (by simp [Pc.arming]) (by simp [Pc.scheduled]) rfl rfl
        fun _ _ ht => ht)
  | @kept job hd =>
    cases job with
    | disarm => cases hacks
    | schedule sch announces => exact .inr (.arming (hnew rfl) (Pool.set_self hi) rfl hd)
  | @swapped job hd =>
    cases job with
    | disarm => cases hacks
    | schedule sch announces => exact .inr (.arming (hnew rfl) (Pool.set_self hi) rfl rfl)
  | @saved job =>
    cases job with
    | disarm => cases hacks
    | schedule sch announces =>
      exact .inr ((hstarted rfl rfl).frame hi (by simp [Pc.reschedules]) (fun _ ha => ha) (by simp [Pc.scheduled])
        rfl rfl fun _ _ ht => ht)
  | spawned =>
    exact .inr ((hstarted rfl rfl).frame hi (by simp [Pc.reschedules]) (fun _ ha => ha) (by simp [Pc.scheduled])
      rfl rfl fun _ _ ht => Pool.add_of_some ht)
  | @stored sch announces transition handle =>
    obtain ⟨hn, -, deadline, htask⟩ := h.spawning.asleep i request sch announces transition handle hi
    have hstore := hkeep.2
    simp only [storesOverEnded, next_advance hi] at hstore
    refine .inr ?_
    cases hstarted rfl rfl with
    | @cancelled j hd hj hget hp =>
      have hji : j ≠ i := by
        rintro rfl
        obtain rfl := Option.some.inj (hget.symm.trans hi)
        cases hp
      exact .cancelled hj ((Pool.set_of_ne hji).trans hget) hp
    | @arming j hd sch' hj hget hp hinner =>
      by_cases hji : j = i
      · -- the call whose state the daemon has stores its handle
        subst hji
        obtain rfl := Option.some.inj (hget.symm.trans hi)
        obtain rfl := Option.some.inj hp
        refine .pending hj (Pool.set_self hi) ?_ ?_ rfl hn htask rfl
        · rfl
        · exact hinner
      · exact .arming hj ((Pool.set_of_ne hji).trans hget) hp hinner
    | @pending j n hd task hj hget hp hinner hslot hn' htask' hsleep =>
      -- the pending trigger sleeps, so no handle is stored over its own
      exact absurd ⟨task, htask', by rw [hsleep]; rfl⟩ (Control.not_live_of_pendingTask hstore hslot)
  | @announced job transition =>
    refine .inr ((hstarted rfl rfl).frame hi (by simp [Pc.reschedules]) (by simp [Pc.arming]) ?_ ?_ ?_
      fun n task ht => ?_)
    · cases job <;> exact fun _ hs => hs
    · split <;> simp
    · split <;> simp
    · split <;> simpa using ht

theorem RearmInv.step (h : RearmInv n₀ k₀ s) (hok : RearmPhase k₀ s act) (hs : step s act = some t) :
    RearmInv n₀ k₀ t := by
  obtain ⟨honly, hkeep⟩ := hok
  have hheld := h.held.step hkeep hs
  have hspawn := h.spawning.step honly hs
  cases stepped_of_step hs with
  | requested r =>
    refine ⟨hheld, hspawn, ?_⟩
    rcases h.latest with hun | hlat
    · refine .inl fun j hd hj hget => ?_
      rcases Pool.of_add hget with ⟨-, rfl⟩ | hget
      · rfl
      · exact hun j hd hj hget
    · exact .inr (hlat.kept (fun _ _ hget => Pool.add_of_some hget) rfl rfl fun _ _ _ ht _ => ht)
  | advanced hi hm => exact h.moved hi hm hkeep
  | @ran act m task' phase player ha hi hlive hwake hphase =>
    refine ⟨hheld, hspawn, h.latest.imp id fun hlat => hlat.kept (fun _ _ hget => hget) rfl rfl ?_⟩
    intro n task hn htask hsleep
    -- a trigger that sleeps and runs is woken, and no new one is
    have hnm : n ≠ m := by
      rintro rfl
      obtain rfl := Option.some.inj (htask.symm.trans hi)
      rw [hwake hsleep] at honly
      have : n < k₀ := by simpa [rearmsOnly] using honly
      omega
    exact (Pool.set_of_ne hnm).trans htask
  | ticked ms wall =>
    exact ⟨hheld, hspawn, h.latest.imp id fun hlat => hlat.kept (fun _ _ hget => hget) rfl rfl fun _ _ _ ht _ => ht⟩
  | refiled fs =>
    exact ⟨hheld, hspawn, h.latest.imp id fun hlat => hlat.kept (fun _ _ hget => hget) rfl rfl fun _ _ _ ht _ => ht⟩
  | restarted ha hd => cases honly

/-- A phase may start when all calls have returned and no trigger has lost its handle. -/
theorem rearmInv_of_run {host : Host} {env : Env} {daemon : AlarmDaemon} {as₀ : List Act} {s₀ : Sys}
    (h₀ : Machine.Run step KeepsHandles (fresh host env daemon) as₀ s₀) (hdone₀ : AllDone s₀) :
    RearmInv s₀.handlers.length s₀.control.tasks.length s₀ := by
  have hnone : ∀ hd ∈ s₀.handlers, hd.pc.handle = none := fun hd hm => Pc.handle_of_done (hdone₀ hd hm)
  refine ⟨held_of_run h₀, ⟨inRange_of_run h₀, le_rfl, le_rfl, fun hd hm => ?_, fun i hd _ hget => ?_,
    fun i r sch announces transition n hget => ?_, fun i j hd hd' n hi hj hn hn' => ?_⟩,
    .inl fun i hd hi hget => ?_⟩
  · obtain ⟨reply, hpc⟩ := Pc.eq_done (hdone₀ hd hm)
    simp [Handler.acks, hpc]
  · exact hdone₀ hd (List.mem_of_getElem? hget)
  · have := hnone _ (List.mem_of_getElem? hget)
    cases this
  · rw [hnone hd (List.mem_of_getElem? hi)] at hn
    cases hn
  · rw [List.getElem?_eq_none hi] at hget
    cases hget

/-- A call that has returned and scheduled a trigger was accepted with it. -/
theorem Pc.eq_done_of_scheduled {pc : Pc} {sch : Schedule} (hd : pc.isDone = true) (h : pc.scheduled = some sch) :
    ∃ announces, pc = .done (.ok (.schedule sch announces)) := by
  obtain ⟨reply, rfl⟩ := Pc.eq_done hd
  cases reply with
  | error e => cases h
  | ok job =>
    cases job with
    | disarm => cases h
    | schedule sch' announces =>
      obtain rfl := Option.some.inj h
      exact ⟨announces, rfl⟩

/-- After a phase of Arms and Snoozes that lost no handle, and of which one was accepted, once
all have returned and before a new trigger has fired: exactly one trigger is live, it is the
pending one, and it was set up with the sound and the delay of the call whose state the daemon
has. -/
theorem one_trigger_left {host : Host} {env : Env} {daemon : AlarmDaemon} {as₀ as : List Act} {s₀ : Sys}
    (h₀ : Machine.Run step KeepsHandles (fresh host env daemon) as₀ s₀) (hdone₀ : AllDone s₀)
    (h : Machine.Run step (RearmPhase s₀.control.tasks.length) s₀ as s) (hdone : AllDone s)
    (hacc : ∃ i r job, s₀.handlers.length ≤ i ∧ s.handlers[i]? = some ⟨r, .done (.ok job)⟩) :
    ∃ n task, s.control.triggerTask = some n ∧ s.control.tasks[n]? = some task ∧ task.phase = .sleeping ∧
      (∀ m, s.control.Live m ↔ m = n) ∧
      (∃ began ≤ s.host.mono, task.deadline = began + task.schedule.delay) ∧
      s.control.daemon.inner = task.schedule.desired ∧
      ∃ i r announces, s₀.handlers.length ≤ i ∧
        s.handlers[i]? = some ⟨r, .done (.ok (.schedule task.schedule announces))⟩ := by
  have hinv := h.invariant (I := RearmInv s₀.handlers.length s₀.control.tasks.length)
    (fun _ _ _ hI hok hs => hI.step hok hs) (rearmInv_of_run h₀ hdone₀)
  have hrun : Machine.Run step Machine.anyStep (fresh host env daemon) (as₀ ++ as) s :=
    (h₀.mono fun _ _ _ => trivial).append (h.mono fun _ _ _ => trivial)
  have htimed : Timed s := hrun.invariant (fun _ _ _ hI _ hs => hI.step hs) (by simp [Timed, fresh, Control.new])
  obtain ⟨k, r, job, hk, hget⟩ := hacc
  cases hinv.latest_of_started hget (by rfl) hk with
  | @cancelled i hd hi hget hp =>
    obtain ⟨reply, hpc⟩ := Pc.eq_done (hdone hd (List.mem_of_getElem? hget))
    rw [hpc] at hp
    cases hp
  | @arming i hd sch hi hget hp hinner =>
    obtain ⟨reply, hpc⟩ := Pc.eq_done (hdone hd (List.mem_of_getElem? hget))
    rw [hpc] at hp
    cases hp
  | @pending i n hd task hi hget hp hinner hslot hn htask hsleep =>
    have hbegan := htimed task (List.mem_of_getElem? htask)
    refine ⟨n, task, hslot, htask, hsleep, fun m => ⟨fun hl => ?_, ?_⟩, hbegan, hinner, ?_⟩
    · -- every live trigger is held, as no call is about to store a handle
      rcases hinv.held m hl with hc | ⟨hd', hm, hh⟩
      · exact Option.some.inj (hc.symm.trans hslot)
      · rw [Pc.handle_of_done (hdone hd' hm)] at hh
        cases hh
    · rintro rfl
      exact ⟨task, htask, by rw [hsleep]; rfl⟩
    · obtain ⟨announces, hpc⟩ := Pc.eq_done_of_scheduled (hdone hd (List.mem_of_getElem? hget)) hp
      obtain ⟨r, pc⟩ := hd
      obtain rfl : pc = _ := hpc
      exact ⟨i, r, announces, hi, hget⟩

/-- A Snooze, and an Arm that cancels after the Snooze has stored its handle. -/
def armAfterSnooze : List Act :=
  [.request (.snooze 60), .request (.arm "builtin:horn")] ++ advances 1 3 ++ advances 2 1 ++ advances 1 5 ++
    advances 2 7

theorem one_trigger_left_arm_after_snooze :
    ∃ s₀ s, Machine.Run step KeepsHandles hornProcess arming s₀ ∧
      Machine.Run step (RearmPhase s₀.control.tasks.length) s₀ armAfterSnooze s ∧
      ∃ n task, s.control.triggerTask = some n ∧ s.control.tasks[n]? = some task ∧ task.phase = .sleeping ∧
        (∀ m, s.control.Live m ↔ m = n) ∧
        (∃ began ≤ s.host.mono, task.deadline = began + task.schedule.delay) ∧
        s.control.daemon.inner = task.schedule.desired ∧
        ∃ i r announces, s₀.handlers.length ≤ i ∧
          s.handlers[i]? = some ⟨r, .done (.ok (.schedule task.schedule announces))⟩ := by
  obtain ⟨s₀, h₀, hdone₀, hlen, hcount⟩ : ∃ s₀, Machine.Run step KeepsHandles hornProcess arming s₀ ∧
      AllDone s₀ ∧ s₀.handlers.length = 1 ∧ s₀.control.tasks.length = 1 := Machine.Run.exists_of_execIf (by decide)
  have hrest := h₀.ends (P := fun s₀ => (step.execIf (RearmPhase 1) s₀ armAfterSnooze).any fun s =>
    decide (AllDone s ∧ s.handlers[2]? = some ⟨.arm "builtin:horn", .done (.ok (.schedule
      ⟨"builtin:horn", "/usr/share/helm/sounds/horn.wav", 3000, 4000⟩ true))⟩)) (by decide)
  obtain ⟨s, h, hdone, hget⟩ := Machine.Run.exists_of_execIf hrest
  rw [← hcount] at h
  exact ⟨s₀, s, h₀, h, one_trigger_left h₀ hdone₀ h hdone ⟨2, _, _, by omega, hget⟩⟩

/-- A Snooze and an Arm that both cancel before either stores its handle. -/
def armBesideSnooze : List Act :=
  [.request (.snooze 60), .request (.arm "builtin:horn")] ++ advances 1 3 ++ advances 2 3 ++ advances 1 5 ++
    advances 2 5

/-- Both calls have returned, and both triggers are live: the handle of the first is lost. -/
theorem two_triggers_left :
    ∃ s₀ s, Machine.Run step Machine.anyStep hornProcess arming s₀ ∧ AllDone s₀ ∧
      Machine.Run step (fun _ act => rearmsOnly 1 act = true) s₀ armBesideSnooze s ∧ AllDone s ∧
      s.control.Live 1 ∧ s.control.Live 2 ∧ s.control.triggerTask = some 2 := by
  obtain ⟨s₀, h₀, hdone₀⟩ : ∃ s₀, Machine.Run step Machine.anyStep hornProcess arming s₀ ∧ AllDone s₀ :=
    Machine.Run.exists_of_execIf (by decide)
  have hrest := h₀.ends (P := fun s₀ => (step.execIf (fun _ act => rearmsOnly 1 act = true) s₀
    armBesideSnooze).any fun s => decide (AllDone s ∧ s.control.Live 1 ∧ s.control.Live 2 ∧
      s.control.triggerTask = some 2)) (by decide)
  obtain ⟨s, h, hend⟩ := Machine.Run.exists_of_execIf hrest
  exact ⟨s₀, s, h₀, hdone₀, h, hend⟩

end HelmAlarm.Ipc
