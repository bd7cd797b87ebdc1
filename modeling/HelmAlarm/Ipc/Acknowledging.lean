import HelmAlarm.Ipc.Triggers

/-!
# A Disarm or Dismiss among Snoozes

`snooze` reads the current sound, and much later arms the daemon with it again. A
Disarm or Dismiss that swaps the state in between is undone. `disarmed_of_ack`:
when no Snooze stands between its reading and the storing of its trigger's handle
at the moment a Disarm or Dismiss swaps the state, the alarm is off once all calls
have returned.
-/

namespace HelmAlarm.Ipc

open HelmAlarm.Library HelmAlarm.Daemon HelmAlarm.Audio

variable {s t : Sys} {act : Act} {i n₀ : ℕ} {f : Faults} {request : Request} {pc pc' : Pc} {control : Control}

/-- The call arms the daemon, or is going to: it has been accepted, and has yet to store its
trigger's handle. -/
def Handler.rearms (hd : Handler) : Bool :=
  match hd.request, hd.pc with
  | .arm _, .begin => true
  | _, .takeTrigger (.schedule _ _) | _, .stopPlayer (.schedule _ _) | _, .swap (.schedule _ _)
  | _, .save (.schedule _ _) _ _ | _, .spawn _ _ _ | _, .store _ _ _ _ => true
  | _, _ => false

theorem Handler.rearms_of_handle {hd : Handler} {n : ℕ} (h : hd.pc.handle = some n) : hd.rearms = true := by
  obtain ⟨request, pc⟩ := hd
  cases pc with
  | store sch announces transition handle => cases request <;> rfl
  | _ => cases h

/-- A Disarm or Dismiss that stands here has not swapped the state. -/
def Pc.beforeAck : Pc → Bool
  | .begin | .takeTrigger .disarm | .stopPlayer .disarm | .swap .disarm => true
  | _ => false

/-- A Disarm or Dismiss swaps the state when no live trigger's handle is held, and no other call
arms the daemon or is going to. -/
def acksAlone (s : Sys) (act : Act) : Bool :=
  match s.next act with
  | some (.swap .disarm) =>
    (s.control.pendingTask.all fun task => !task.phase.isLive) && s.handlers.all fun hd => !hd.rearms
  | _ => true

/-- No Arm is called, and the process is not restarted. -/
def withoutArm : Act → Bool
  | .request (.arm _) | .restart _ => false
  | _ => true

/-- The steps of a phase without Arms in which each Disarm or Dismiss is alone. -/
def AckPhase (s : Sys) (act : Act) : Prop :=
  withoutArm act = true ∧ KeepsHandles s act ∧ acksAlone s act = true

instance (s : Sys) (act : Act) : Decidable (AckPhase s act) := inferInstanceAs (Decidable (_ ∧ _))

/-- The alarm is off for good: nothing is live, and no call is going to arm the daemon. -/
structure Off (s : Sys) : Prop where
  /-- The daemon is disarmed. -/
  disarmed : s.control.daemon.inner = .disarmed
  /-- No trigger is live. -/
  dead : ∀ n, ¬ s.control.Live n
  /-- No call arms the daemon. -/
  alone : ∀ hd ∈ s.handlers, hd.rearms = false

theorem Off.frame (h : Off s) (hp : Handler.rearms ⟨request, pc'⟩ = false) (hd : control.daemon.inner = .disarmed)
    (ht : ∀ n, control.Live n → s.control.Live n) :
    Off { s with control := control, handlers := s.handlers.set i ⟨request, pc'⟩ } :=
  ⟨hd, fun n hn => h.dead n (ht n hn), Pool.forall_set h.alone hp⟩

/-- A disarmed daemon has no sound to snooze. -/
theorem begin_of_disarmed {h : Host} {c : Control} {job : Job} (hd : c.daemon.inner = .disarmed)
    (hb : c.begin h request = .ok job) (hr : ∀ id, request ≠ .arm id) : job = .disarm := by
  cases Control.begun_of_begin hb with
  | @armed soundId _ _ => exact absurd rfl (hr soundId)
  | snoozed hsound _ =>
    unfold Control.snoozeSound AlarmDaemon.currentSound at hsound
    rw [hd] at hsound
    split at hsound <;> cases hsound
  | acked _ => rfl

/-- A Disarm or Dismiss is never rejected. -/
theorem begin_of_isAck {h : Host} {c : Control} (hr : request.isAck = true) : c.begin h request = .ok .disarm := by
  cases request with
  | disarm | dismiss => rfl
  | arm id | snooze durationS => cases hr

theorem Off.moved (h : Off s) (hi : s.handlers[i]? = some ⟨request, pc⟩)
    (hm : Moved s.host request s.control pc control pc') :
    Off { s with control := control, handlers := s.handlers.set i ⟨request, pc'⟩ } := by
  have hne := h.alone _ (List.mem_of_getElem? hi)
  cases hm with
  | rejected => exact h.frame (by cases request <;> rfl) h.disarmed fun _ hn => hn
  | accepted hb =>
    obtain rfl := begin_of_disarmed h.disarmed hb (by rintro id rfl; cases hne)
    exact h.frame (by cases request <;> rfl) h.disarmed fun _ hn => hn
  | @taken job =>
    cases job with
    | schedule sch announces => cases request <;> cases hne
    | disarm => exact h.frame (by cases request <;> rfl) (by simp [h.disarmed]) fun _ hn => hn.of_takeTrigger
  | @stopped job =>
    cases job with
    | schedule sch announces => cases request <;> cases hne
    | disarm => exact h.frame (by cases request <;> rfl) h.disarmed fun _ hn => hn
  | @kept job hd =>
    cases job with
    | schedule sch announces => cases request <;> cases hne
    | disarm => exact h.frame (by cases request <;> rfl) h.disarmed fun _ hn => hn
  | @swapped job hd =>
    cases job with
    | schedule sch announces => cases request <;> cases hne
    | disarm => exact h.frame (by cases request <;> rfl) rfl fun _ hn => hn
  | @saved job =>
    cases job with
    | schedule sch announces => cases request <;> cases hne
    | disarm => exact h.frame (by cases request <;> rfl) h.disarmed fun _ hn => hn
  | spawned => cases request <;> cases hne
  | stored => cases request <;> cases hne
  | announced =>
    refine h.frame (by cases request <;> rfl) (by split <;> simp [h.disarmed]) fun n hn => ?_
    obtain ⟨task, ht, hl⟩ := hn
    exact ⟨task, by split at ht <;> simpa using ht, hl⟩

theorem Off.step (h : Off s) (hw : withoutArm act = true) (hs : step s act = some t) : Off t := by
  cases stepped_of_step hs with
  | requested r =>
    refine ⟨h.disarmed, h.dead, Pool.forall_add h.alone ?_⟩
    cases r with
    | arm id => cases hw
    | _ => rfl
  | advanced hi hm => exact h.moved hi hm
  | ran ha hi hlive hwake hphase => exact ⟨h.disarmed, fun n hn => h.dead n (live_set_of_ran hi hlive hn), h.alone⟩
  | ticked ms wall => exact ⟨h.disarmed, h.dead, h.alone⟩
  | refiled fs => exact ⟨h.disarmed, h.dead, h.alone⟩
  | restarted ha hd => cases hw

/-- A Disarm or Dismiss that swaps the state alone leaves the alarm off. -/
theorem off_of_swap (hheld : Held s) (hi : s.handlers[i]? = some ⟨request, .swap .disarm⟩)
    (halone : acksAlone s (.advance i f) = true)
    (hm : Moved s.host request s.control (.swap .disarm) control pc') :
    Off { s with control := control, handlers := s.handlers.set i ⟨request, pc'⟩ } := by
  simp only [acksAlone, next_advance hi, Bool.and_eq_true] at halone
  obtain ⟨hpend, hothers⟩ := halone
  have hothers' : ∀ hd ∈ s.handlers, hd.rearms = false := by simpa using hothers
  have hdead : ∀ n, ¬ s.control.Live n := by
    intro n hl
    rcases hheld n hl with hc | ⟨hd, hm, hh⟩
    · exact Control.not_live_of_pendingTask hpend hc hl
    · have := hothers' _ hm
      rw [Handler.rearms_of_handle hh] at this
      cases this
  cases hm with
  | kept hd => exact ⟨hd, hdead, Pool.forall_set hothers' (by cases request <;> rfl)⟩
  | swapped hd => exact ⟨rfl, hdead, Pool.forall_set hothers' (by cases request <;> rfl)⟩

/-- The invariant of the phase, whose calls are those from `n₀` on: the alarm is off, or no Disarm
or Dismiss has swapped yet. -/
def AckInv (n₀ : ℕ) (s : Sys) : Prop :=
  Held s ∧ (Off s ∨ ∀ i hd, n₀ ≤ i → s.handlers[i]? = some hd → hd.request.isAck = true → hd.pc.beforeAck = true)

theorem AckInv.step (h : AckInv n₀ s) (hok : AckPhase s act) (hs : Ipc.step s act = some t) : AckInv n₀ t := by
  obtain ⟨hheld, hoff⟩ := h
  obtain ⟨hw, hkeep, halone⟩ := hok
  refine ⟨hheld.step hkeep hs, ?_⟩
  rcases hoff with hoff | hbefore
  · exact .inl (hoff.step hw hs)
  · cases stepped_of_step hs with
    | requested r =>
      refine .inr fun j hd hj hget hack => ?_
      rcases Pool.of_add hget with ⟨-, rfl⟩ | hget
      · rfl
      · exact hbefore j hd hj hget hack
    | @advanced i f request pc pc' control hi hm =>
      by_cases hswap : pc = .swap .disarm
      · subst hswap
        exact .inl (off_of_swap hheld hi halone hm)
      · refine .inr fun j hd hj hget hack => ?_
        rcases Pool.of_set hget with ⟨rfl, rfl⟩ | ⟨-, hget⟩
        · have hb := hbefore j _ hj hi hack
          cases hm with
          | rejected hb' => rw [begin_of_isAck hack] at hb'; cases hb'
          | accepted hb' => rw [begin_of_isAck hack] at hb'; obtain rfl := Except.ok.inj hb'; rfl
          | @taken job => cases job <;> first | rfl | cases hb
          | @stopped job => cases job <;> first | rfl | cases hb
          | @kept job => cases job <;> first | exact absurd rfl hswap | cases hb
          | @swapped job => cases job <;> first | exact absurd rfl hswap | cases hb
          | _ => cases hb
        · exact hbefore j hd hj hget hack
    | ran ha hi hlive hwake hphase => exact .inr hbefore
    | ticked ms wall => exact .inr hbefore
    | refiled fs => exact .inr hbefore
    | restarted ha hd => cases hw

/-- After a phase of Snoozes and at least one Disarm or Dismiss, which swapped alone, the alarm
is off when all calls have returned. The phase may start in any state in which no live trigger
has lost its handle. -/
theorem disarmed_of_ack {as : List Act} {s₀ : Sys} (hheld : Held s₀) (h : Machine.Run step AckPhase s₀ as s)
    (hdone : AllDone s)
    (hack : ∃ i hd, s₀.handlers.length ≤ i ∧ s.handlers[i]? = some hd ∧ hd.request.isAck = true) :
    s.control.status = false ∧ s.control.daemon.currentSound = none ∧ ∀ n, ¬ s.control.Live n := by
  have hinit : AckInv s₀.handlers.length s₀ := by
    refine ⟨hheld, .inr fun i hd hi hget => ?_⟩
    rw [List.getElem?_eq_none hi] at hget
    cases hget
  obtain ⟨-, hoff⟩ := h.invariant (I := AckInv s₀.handlers.length) (fun _ _ _ hI hok hs => hI.step hok hs) hinit
  rcases hoff with hoff | hbefore
  · refine ⟨?_, ?_, hoff.dead⟩
    · rw [Control.status, AlarmDaemon.status, hoff.disarmed]; rfl
    · rw [AlarmDaemon.currentSound, hoff.disarmed]; rfl
  · obtain ⟨i, ⟨r, pc⟩, hi, hget, hr⟩ := hack
    have hb := hbefore i _ hi hget hr
    obtain ⟨reply, rfl⟩ := Pc.eq_done (hdone _ (List.mem_of_getElem? hget))
    cases hb

/-- A Snooze from its start to its end within a Dismiss, before that cancels. -/
def snoozeWithinDismiss : List Act :=
  [.request (.snooze 60), .request .dismiss] ++ advances 2 1 ++ advances 1 8 ++ advances 2 5

theorem disarmed_of_ack_snooze_within_dismiss :
    ∃ s₀ s, Machine.Run step KeepsHandles hornProcess arming s₀ ∧
      Machine.Run step AckPhase s₀ snoozeWithinDismiss s ∧ s.control.status = false ∧
      s.control.daemon.currentSound = none ∧ ∀ n, ¬ s.control.Live n := by
  obtain ⟨s₀, h₀, hlen⟩ : ∃ s₀, Machine.Run step KeepsHandles hornProcess arming s₀ ∧ s₀.handlers.length = 1 :=
    Machine.Run.exists_of_execIf (by decide)
  have hrest := h₀.ends (P := fun s₀ => (step.execIf AckPhase s₀ snoozeWithinDismiss).any fun s =>
    decide (AllDone s ∧ s.handlers[2]?.map Handler.request = some .dismiss)) (by decide)
  obtain ⟨s, h, hdone, hreq⟩ := Machine.Run.exists_of_execIf hrest
  obtain ⟨hd, hget, hr⟩ := Option.map_eq_some_iff.mp hreq
  exact ⟨s₀, s, h₀, h, disarmed_of_ack (held_of_run h₀) h hdone ⟨2, hd, by omega, hget, by rw [hr]; rfl⟩⟩

/-- A Dismiss from its start to its end between the reading of the current sound by a Snooze and
what the Snooze does with it. -/
def dismissWithinSnooze : List Act :=
  [.request (.snooze 60), .request .dismiss] ++ advances 1 1 ++ advances 2 6 ++ advances 1 7

/-- Both calls have returned, and the alarm that was dismissed is armed again. -/
theorem snooze_resurrects :
    ∃ s₀ s, Machine.Run step Machine.anyStep hornProcess arming s₀ ∧ AllDone s₀ ∧ s₀.control.status = true ∧
      Machine.Run step (fun _ act => withoutArm act = true) s₀ dismissWithinSnooze s ∧ AllDone s ∧
      s.control.status = true ∧ s.control.Live 1 := by
  obtain ⟨s₀, h₀, hdone₀, harmed⟩ : ∃ s₀, Machine.Run step Machine.anyStep hornProcess arming s₀ ∧ AllDone s₀ ∧
      s₀.control.status = true := Machine.Run.exists_of_execIf (by decide)
  have hrest := h₀.ends (P := fun s₀ => (step.execIf (fun _ act => withoutArm act = true) s₀
    dismissWithinSnooze).any fun s => decide (AllDone s ∧ s.control.status = true ∧ s.control.Live 1)) (by decide)
  obtain ⟨s, h, hend⟩ := Machine.Run.exists_of_execIf hrest
  exact ⟨s₀, s, h₀, hdone₀, harmed, h, hend⟩

end HelmAlarm.Ipc
