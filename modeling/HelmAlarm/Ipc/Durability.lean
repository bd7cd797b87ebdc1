import HelmAlarm.Daemon.Clones
import HelmAlarm.Ipc.Cancelling
import HelmAlarm.Ipc.Coherence
import Mathlib.Data.List.Nodup

/-!
# What a restart finds

To the daemon and its store, the handlers are calls of `transition_to` on clones: each
handler that comes to swap the state makes one call, and whatever is between its steps,
the machine of the clones takes the steps it stands for. `handlers_refine_clones` says
so of every interleaving of handlers, triggers, clocks and restarts.

So what is known of the clones holds of the methods. When calls are made one at a time,
from an empty store on, and their saves succeed, a process that ends anywhere is started
again in the state of the last call that returned ok, or in the whole state of the call in
progress: `restart_finds_reply_or_request`. A call that was rejected counts for nothing,
and neither does a trigger.
-/

namespace HelmAlarm.Ipc

open HelmAlarm.Library HelmAlarm.Daemon HelmAlarm.Audio

variable {s t : Sys} {act : Act} {as : List Act} {i k : ℕ} {f : Faults} {request : Request} {pc pc' : Pc}
  {control : Control} {c : Clones.Sys} {order : List ℕ} {th : Clones.Thread}

/-! ### Handlers as calls -/

/-- The call of `transition_to` a job makes. -/
def Job.call : Job → Call
  | .schedule sch _ => .armWithSound sch.soundId (some sch.fireAt)
  | .disarm => .disarm

@[simp] theorem Job.desired_call (job : Job) : job.call.desired = job.desired := by
  cases job <;> rfl

/-- Where the call of a handler stands, once it has swapped the state. -/
inductive Makes : Pc → Clones.Thread → Prop where
  /-- It is to save. -/
  | saving (job : Job) (snapshot : PersistedState) (transition : Transition) :
      Makes (.save job snapshot transition) ⟨job.desired, .queued snapshot transition⟩
  /-- It has saved, and the trigger is to be spawned. -/
  | spawning (sch : Schedule) (announces : Bool) (transition : Transition) :
      Makes (.spawn sch announces transition) ⟨sch.desired, .joined transition⟩
  /-- The trigger's handle is to be stored. -/
  | storing (sch : Schedule) (announces : Bool) (transition : Transition) (handle : ℕ) :
      Makes (.store sch announces transition handle) ⟨sch.desired, .joined transition⟩
  /-- It is to be announced. -/
  | announcing (job : Job) (transition : Transition) :
      Makes (.announce job transition) ⟨job.desired, .joined transition⟩
  /-- The handler has returned. -/
  | returned (job : Job) (transition : Transition) : Makes (.done (.ok job)) ⟨job.desired, .returned transition⟩

/-- The handler has swapped the state. -/
def Pc.hasSwapped : Pc → Bool
  | .save _ _ _ | .spawn _ _ _ | .store _ _ _ _ | .announce _ _ | .done (.ok _) => true
  | _ => false

theorem Makes.hasSwapped (h : Makes pc th) : pc.hasSwapped = true := by
  cases h <;> rfl

/-- The daemon of the clones is that of the handlers; call `k` is made by the handler at place `k`
of `order`, and every handler that has swapped the state made one. -/
structure Refines (s : Sys) (c : Clones.Sys) (order : List ℕ) : Prop where
  /-- The daemon is the same. -/
  daemon : c.daemon = s.control.daemon
  /-- Every call is that of a handler. -/
  counted : order.length = c.calls.length
  /-- No handler makes two. -/
  once : order.Nodup
  /-- The call stands where its handler does. -/
  made : ∀ (k i : ℕ) th, order[k]? = some i → c.calls[k]? = some th →
    ∃ hd : Handler, s.handlers[i]? = some hd ∧ Makes hd.pc th
  /-- A handler that has swapped the state made a call. -/
  all : ∀ (i : ℕ) (hd : Handler), s.handlers[i]? = some hd → hd.pc.hasSwapped = true → i ∈ order

/-- The state the last call that returned ok asked for, or with which the process was last started. -/
def settledAfter (settled : State) (s : Sys) (act : Act) (t : Sys) : State :=
  match act with
  | .advance i _ =>
    match s.handlers[i]? with
    | some ⟨_, .announce job _⟩ => job.desired
    | _ => settled
  | .restart _ => t.control.daemon.inner
  | _ => settled

/-- The steps of the clones a step of the handlers stands for. -/
inductive StandsFor (s : Sys) (c : Clones.Sys) (order : List ℕ) : Act → List Clones.Act → Prop where
  /-- None: the daemon has nothing to do with it, and no call returns. -/
  | nothing {act : Act} (h : ∀ settled t, settledAfter settled s act t = settled) : StandsFor s c order act []
  /-- A handler comes to swap the state. -/
  | swaps {i : ℕ} {f : Faults} {request : Request} {job : Job} (hi : s.handlers[i]? = some ⟨request, .swap job⟩) :
      StandsFor s c order (.advance i f) [.call job.call, .swap c.calls.length]
  /-- A handler saves. -/
  | saves {i k : ℕ} {f : Faults} (hk : order[k]? = some i) {request : Request} {job : Job} {snapshot : PersistedState}
      {transition : Transition} (hi : s.handlers[i]? = some ⟨request, .save job snapshot transition⟩) :
      StandsFor s c order (.advance i f) [.save k f]
  /-- A handler returns. -/
  | returns {i k : ℕ} {f : Faults} (hk : order[k]? = some i) {request : Request} {job : Job}
      {transition : Transition} (hi : s.handlers[i]? = some ⟨request, .announce job transition⟩) :
      StandsFor s c order (.advance i f) [.ret k]
  /-- The process is restarted. -/
  | restarts {env : Env} : StandsFor s c order (.restart env) [.restart s.host.wall]

/-- The call of a handler that has swapped the state. -/
theorem Refines.exists_call (h : Refines s c order) (hi : s.handlers[i]? = some ⟨request, pc⟩)
    (hpc : pc.hasSwapped = true) : ∃ (k : ℕ) (th : Clones.Thread), order[k]? = some i ∧ c.calls[k]? = some th ∧ Makes pc th := by
  obtain ⟨k, hk⟩ := List.mem_iff_getElem?.mp (h.all i _ hi hpc)
  have hlt : k < c.calls.length := h.counted ▸ (List.getElem?_eq_some_iff.mp hk).1
  obtain ⟨hd, hi', hmakes⟩ := h.made k i _ hk (List.getElem?_eq_getElem hlt)
  obtain rfl := Option.some.inj (hi.symm.trans hi')
  exact ⟨k, _, hk, List.getElem?_eq_getElem hlt, hmakes⟩

/-- Neither the daemon nor a handler moves. -/
theorem Refines.frame (h : Refines s c order) (hd : t.control.daemon = s.control.daemon)
    (hh : t.handlers = s.handlers) : Refines t c order :=
  ⟨h.daemon.trans hd.symm, h.counted, h.once, by rw [hh]; exact h.made, by rw [hh]; exact h.all⟩

/-- A handler moves, and its call, if it has made one, stands where it did. -/
theorem Refines.moved (h : Refines s c order) (hi : s.handlers[i]? = some ⟨request, pc⟩)
    (hd : control.daemon = s.control.daemon) (hkept : ∀ th, Makes pc th → Makes pc' th)
    (hnew : pc'.hasSwapped = true → pc.hasSwapped = true) :
    Refines { s with control := control, handlers := s.handlers.set i ⟨request, pc'⟩ } c order := by
  refine ⟨h.daemon.trans hd.symm, h.counted, h.once, fun k j th hk hth => ?_, fun j hd' hj hpc => ?_⟩
  · obtain ⟨hd', hj, hmakes⟩ := h.made k j th hk hth
    by_cases hji : j = i
    · subst hji
      obtain rfl := Option.some.inj (hj.symm.trans hi)
      exact ⟨_, Pool.set_self hj, hkept th hmakes⟩
    · exact ⟨hd', (Pool.set_of_ne hji).trans hj, hmakes⟩
  · rcases Pool.of_set hj with ⟨rfl, rfl⟩ | ⟨-, hj⟩
    · exact h.all _ _ hi (hnew hpc)
    · exact h.all j hd' hj hpc

/-- A handler that has not swapped the state moves, and still has not. -/
theorem Refines.before (h : Refines s c order) (hi : s.handlers[i]? = some ⟨request, pc⟩)
    (hd : control.daemon = s.control.daemon) (hpc : pc.hasSwapped = false) (hpc' : pc'.hasSwapped = false) :
    Refines { s with control := control, handlers := s.handlers.set i ⟨request, pc'⟩ } c order :=
  h.moved hi hd (fun th hmakes => absurd hmakes.hasSwapped (by simp [hpc])) (by simp [hpc'])

/-- A handler swaps the state, or finds it as it wants it: it makes a call. -/
theorem Refines.swapped {daemon : AlarmDaemon} (h : Refines s c order) (hi : s.handlers[i]? = some ⟨request, pc⟩)
    (hpc : pc.hasSwapped = false) (hd : control.daemon = daemon) (hmakes : Makes pc' th) :
    Refines { s with control := control, handlers := s.handlers.set i ⟨request, pc'⟩ }
      ⟨daemon, c.calls ++ [th]⟩ (order ++ [i]) := by
  have hne : ∀ j ∈ order, j ≠ i := by
    rintro j hm rfl
    obtain ⟨k, hk⟩ := List.mem_iff_getElem?.mp hm
    have hlt : k < c.calls.length := h.counted ▸ (List.getElem?_eq_some_iff.mp hk).1
    obtain ⟨hd', hj, hmakes'⟩ := h.made k j _ hk (List.getElem?_eq_getElem hlt)
    obtain rfl := Option.some.inj (hj.symm.trans hi)
    rw [hmakes'.hasSwapped] at hpc
    cases hpc
  refine ⟨hd.symm, by simp [h.counted], ?_, fun k j th' hk hth => ?_, fun j hd' hj hpc' => ?_⟩
  · exact List.nodup_append.mpr ⟨h.once, List.nodup_singleton i, fun j hj j' hj' => by
      rw [List.mem_singleton.mp hj']
      exact hne j hj⟩
  · rcases Pool.of_add hk with ⟨rfl, rfl⟩ | hk
    · rw [h.counted] at hth
      obtain rfl := Option.some.inj (Pool.add_self.symm.trans hth)
      exact ⟨_, Pool.set_self hi, hmakes⟩
    · have hlt : k < c.calls.length := h.counted ▸ (List.getElem?_eq_some_iff.mp hk).1
      rw [List.getElem?_append_left hlt] at hth
      obtain ⟨hd', hj, hmakes'⟩ := h.made k j th' hk hth
      exact ⟨hd', (Pool.set_of_ne (hne j (List.mem_of_getElem? hk))).trans hj, hmakes'⟩
  · rcases Pool.of_set hj with ⟨rfl, -⟩ | ⟨-, hj⟩
    · exact List.mem_append_right _ (List.mem_singleton_self _)
    · exact List.mem_append_left _ (h.all j hd' hj hpc')

/-- A handler that has swapped the state moves, and its call with it. -/
theorem Refines.after {daemon : AlarmDaemon} {th' : Clones.Thread} (h : Refines s c order)
    (hi : s.handlers[i]? = some ⟨request, pc⟩) (hk : order[k]? = some i) (hth : c.calls[k]? = some th)
    (hmakes : Makes pc th) (hd : control.daemon = daemon) (hmakes' : Makes pc' th') :
    Refines { s with control := control, handlers := s.handlers.set i ⟨request, pc'⟩ }
      ⟨daemon, c.calls.set k th'⟩ order := by
  refine ⟨hd.symm, by simp [h.counted], h.once, fun l j th₁ hl hth₁ => ?_, fun j hd' hj hpc => ?_⟩
  · rcases Pool.of_set hth₁ with ⟨rfl, rfl⟩ | ⟨hlk, hth₁⟩
    · obtain rfl := Option.some.inj (hl.symm.trans hk)
      exact ⟨_, Pool.set_self hi, hmakes'⟩
    · obtain ⟨hd', hj, hmakes₁⟩ := h.made l j th₁ hl hth₁
      have hji : j ≠ i := by
        rintro rfl
        exact hlk ((List.getElem?_inj (List.getElem?_eq_some_iff.mp hl).1 h.once).mp (hl.trans hk.symm))
      exact ⟨hd', (Pool.set_of_ne hji).trans hj, hmakes₁⟩
  · rcases Pool.of_set hj with ⟨rfl, -⟩ | ⟨-, hj⟩
    · exact h.all _ _ hi hmakes.hasSwapped
    · exact h.all j hd' hj hpc

/-- A handler that has swapped the state, or found it as it wanted it, goes on. -/
theorem Job.makes (job : Job) (transition : Transition) :
    Makes (job.afterTransition transition) ⟨job.desired, .joined transition⟩ := by
  cases job with
  | schedule sch announces => exact .spawning sch announces transition
  | disarm => exact .announcing .disarm transition

/-- A call is made, and swaps the state. -/
theorem run_swap {job : Job} (d : AlarmDaemon) (th : Clones.Thread)
    (hs : Clones.step { c with calls := c.calls ++ [⟨job.desired, .lock⟩] } (.swap c.calls.length) =
      some ⟨d, (c.calls ++ [(⟨job.desired, .lock⟩ : Clones.Thread)]).set c.calls.length th⟩) :
    Machine.Run Clones.step Machine.anyStep c [.call job.call, .swap c.calls.length] ⟨d, c.calls ++ [th]⟩ := by
  have hset : (c.calls ++ [(⟨job.desired, .lock⟩ : Clones.Thread)]).set c.calls.length th = c.calls ++ [th] := by
    rw [List.set_append_right _ _ le_rfl, Nat.sub_self, List.set_cons_zero]
  rw [hset] at hs
  exact .cons trivial (Clones.step_call.mpr (by rw [Job.desired_call])) (.single trivial hs)

/-- A step of a handler is, to the daemon, the steps it stands for. -/
theorem Refines.advanced (h : Refines s c order) (hi : s.handlers[i]? = some ⟨request, pc⟩)
    (hm : s.control.move s.host f request pc = some (control, pc')) :
    ∃ cs c' order', StandsFor s c order (.advance i f) cs ∧ Machine.Run Clones.step Machine.anyStep c cs c' ∧
      Refines { s with control := control, handlers := s.handlers.set i ⟨request, pc'⟩ } c' order' := by
  have hquiet : (∀ job transition, pc ≠ .announce job transition) →
      Refines { s with control := control, handlers := s.handlers.set i ⟨request, pc'⟩ } c order →
      ∃ cs c' order', StandsFor s c order (.advance i f) cs ∧ Machine.Run Clones.step Machine.anyStep c cs c' ∧
        Refines { s with control := control, handlers := s.handlers.set i ⟨request, pc'⟩ } c' order' := by
    refine fun hpc h => ⟨[], c, order, .nothing fun settled t => ?_, .nil, h⟩
    simp only [settledAfter, hi]
    cases pc with
    | announce job transition => exact absurd rfl (hpc job transition)
    | _ => rfl
  cases pc with
  | swap job =>
    have hlock : (c.calls ++ [(⟨job.desired, .lock⟩ : Clones.Thread)])[c.calls.length]? = some ⟨job.desired, .lock⟩ :=
      Pool.add_self
    simp only [Control.move] at hm
    split at hm
    · rename_i hswap
      obtain ⟨rfl, rfl⟩ := Prod.mk.inj (Option.some.inj hm)
      refine ⟨_, _, _, .swaps hi, run_swap c.daemon ⟨job.desired, .joined .noChange⟩ ?_,
        h.swapped hi rfl h.daemon.symm (job.makes .noChange)⟩
      simp only [Clones.step, hlock, h.daemon, hswap]
    · rename_i state snapshot transition hswap
      obtain ⟨rfl, rfl⟩ := Prod.mk.inj (Option.some.inj hm)
      refine ⟨_, _, _, .swaps hi, run_swap { s.control.daemon with inner := state }
        ⟨job.desired, .queued snapshot transition⟩ ?_, h.swapped hi rfl rfl (.saving job snapshot transition)⟩
      simp only [Clones.step, hlock, h.daemon, hswap]
  | save job snapshot transition =>
    obtain ⟨rfl, rfl⟩ := Prod.mk.inj (Option.some.inj hm)
    obtain ⟨k, th, hk, hth, hmakes⟩ := h.exists_call hi rfl
    cases hmakes
    refine ⟨_, _, _, .saves hk hi, .single trivial ?_, h.after hi hk hth (.saving job snapshot transition) rfl
      (job.makes transition)⟩
    simp only [Clones.step, hth, h.daemon]
  | announce job transition =>
    obtain ⟨rfl, rfl⟩ := Prod.mk.inj (Option.some.inj hm)
    obtain ⟨k, th, hk, hth, hmakes⟩ := h.exists_call hi rfl
    cases hmakes
    have hdaemon : (if job.announces then s.control.announce transition else s.control).daemon = c.daemon := by
      rw [h.daemon]
      split <;> simp
    refine ⟨_, _, _, .returns hk hi, .single trivial ?_, h.after hi hk hth (.announcing job transition)
      hdaemon (.returned job transition)⟩
    simp only [Clones.step, hth]
  | begin =>
    simp only [Control.move] at hm
    split at hm <;> obtain ⟨rfl, rfl⟩ := Prod.mk.inj (Option.some.inj hm) <;> exact hquiet (by simp) (h.before hi rfl rfl rfl)
  | takeTrigger job =>
    obtain ⟨rfl, rfl⟩ := Prod.mk.inj (Option.some.inj hm)
    exact hquiet (by simp) (h.before hi (by simp) rfl rfl)
  | stopPlayer job =>
    obtain ⟨rfl, rfl⟩ := Prod.mk.inj (Option.some.inj hm)
    exact hquiet (by simp) (h.before hi rfl rfl rfl)
  | spawn sch announces transition =>
    obtain ⟨rfl, rfl⟩ := Prod.mk.inj (Option.some.inj hm)
    refine hquiet (by simp) (h.moved hi rfl (fun th hmakes => ?_) fun _ => rfl)
    cases hmakes
    exact .storing sch announces transition _
  | store sch announces transition handle =>
    obtain ⟨rfl, rfl⟩ := Prod.mk.inj (Option.some.inj hm)
    refine hquiet (by simp) (h.moved hi rfl (fun th hmakes => ?_) fun _ => rfl)
    cases hmakes
    exact .announcing (.schedule sch announces) transition
  | done reply => cases hm

theorem Refines.step (h : Refines s c order) (hs : step s act = some t) :
    ∃ cs c' order', StandsFor s c order act cs ∧ Machine.Run Clones.step Machine.anyStep c cs c' ∧
      Refines t c' order' := by
  have hquiet : (∀ settled t, settledAfter settled s act t = settled) → t.control.daemon = s.control.daemon →
      t.handlers = s.handlers → ∃ cs c' order', StandsFor s c order act cs ∧
        Machine.Run Clones.step Machine.anyStep c cs c' ∧ Refines t c' order' :=
    fun hret hd hh => ⟨[], c, order, .nothing hret, .nil, h.frame hd hh⟩
  cases act with
  | request r =>
    obtain rfl := Option.some.inj hs
    refine ⟨[], c, order, .nothing fun _ _ => rfl, .nil, h.daemon, h.counted, h.once, fun k i th hk hth => ?_, fun i hd hi hpc => ?_⟩
    · obtain ⟨hd, hi, hmakes⟩ := h.made k i th hk hth
      exact ⟨hd, Pool.add_of_some hi, hmakes⟩
    · rcases Pool.of_add hi with ⟨-, rfl⟩ | hi
      · cases hpc
      · exact h.all i hd hi hpc
  | advance i f =>
    simp only [Ipc.step] at hs
    split at hs
    · cases hs
    · rename_i request pc hi
      obtain ⟨⟨control, pc'⟩, hm, rfl⟩ := Option.map_eq_some_iff.mp hs
      exact h.advanced hi hm
  | wake i =>
    obtain ⟨sch, deadline, hi, hle, rfl⟩ := step_wake hs
    exact hquiet (fun _ _ => rfl) rfl rfl
  | decode i =>
    obtain ⟨sch, deadline, hi, rfl⟩ := step_decode hs
    exact hquiet (fun _ _ => rfl) rfl rfl
  | play i =>
    obtain ⟨sch, deadline, sound, hi, rfl⟩ := step_play hs
    exact hquiet (fun _ _ => rfl) rfl rfl
  | tick ms wall | files fs =>
    obtain rfl := Option.some.inj hs
    exact hquiet (fun _ _ => rfl) rfl rfl
  | restart env =>
    simp only [Ipc.step] at hs
    split at hs
    · cases hs
    · rename_i daemon r hn
      obtain rfl := Option.some.inj hs
      refine ⟨_, ⟨daemon, []⟩, [], .restarts, .single trivial ?_, rfl, rfl, List.nodup_nil, by simp, by simp⟩
      simp only [Clones.step, h.daemon, hn]

theorem refines_fresh (host : Host) (env : Env) (daemon : AlarmDaemon) :
    Refines (fresh host env daemon) ⟨daemon, []⟩ [] :=
  ⟨rfl, rfl, List.nodup_nil, by simp, by simp [fresh]⟩

/-- Every run of the handlers, the triggers, the clocks and the process is, for the daemon and its
store, a run of calls of `transition_to` on clones: it ends with the same state in memory and the
same disk, each handler that swapped the state made one call, which stands where the handler does,
and when all handlers have returned so have all calls. -/
theorem handlers_refine_clones {host : Host} {env : Env} {daemon : AlarmDaemon}
    (h : Machine.Run Ipc.step Machine.anyStep (fresh host env daemon) as s) :
    ∃ cs c order, Machine.Run Clones.step Machine.anyStep ⟨daemon, []⟩ cs c ∧ Refines s c order ∧
      (AllDone s → Clones.AllReturned c) := by
  obtain ⟨cs, c, hrun, order, hR⟩ : ∃ cs c, Machine.Run Clones.step Machine.anyStep (⟨daemon, []⟩ : Clones.Sys) cs c ∧
      ∃ order, Refines s c order := by
    refine h.refine (R := fun s c => ∃ order, Refines s c order) (fun s act t c hR _ hs => ?_) ⟨[], refines_fresh host env daemon⟩
    obtain ⟨order, hR⟩ := hR
    obtain ⟨cs, c', order', -, hrun, hR'⟩ := hR.step hs
    exact ⟨cs, c', hrun, order', hR'⟩
  refine ⟨cs, c, order, hrun, hR, fun hdone th hth => ?_⟩
  obtain ⟨k, hk⟩ := List.mem_iff_getElem?.mp hth
  have hlt : k < order.length := hR.counted ▸ (List.getElem?_eq_some_iff.mp hk).1
  obtain ⟨hd, hi, hmakes⟩ := hR.made k _ th (List.getElem?_eq_getElem hlt) hk
  obtain ⟨request, pc⟩ := hd
  obtain ⟨reply, rfl⟩ := Pc.eq_done (hdone _ (List.mem_of_getElem? hi))
  cases hmakes
  rfl

/-- An Arm and a Disarm that go step by step together, and an Arm after them. -/
def interleaving : List Act :=
  [.request (.arm "builtin:horn"), .request .disarm] ++
    (List.replicate 6 [.advance 0 .none, .advance 1 .none]).flatten ++ advances 0 2 ++
    .request (.arm "builtin:horn") :: advances 2 8

theorem handlers_refine_clones_interleaving :
    ∃ s cs c order, Machine.Run Ipc.step Machine.anyStep hornProcess interleaving s ∧ AllDone s ∧
      Machine.Run Clones.step Machine.anyStep (⟨⟨.disarmed, {}⟩, []⟩ : Clones.Sys) cs c ∧ Refines s c order ∧
      Clones.AllReturned c := by
  obtain ⟨s, hrun, hdone⟩ : ∃ s, Machine.Run Ipc.step Machine.anyStep hornProcess interleaving s ∧ AllDone s :=
    Machine.Run.exists_of_execIf (by decide)
  obtain ⟨cs, c, order, hclones, hR, hret⟩ := handlers_refine_clones hrun
  exact ⟨s, cs, c, order, hrun, hdone, hclones, hR, hret hdone⟩

/-! ### One call at a time -/

/-- A save that runs to its end succeeds. -/
def savesSucceed (s : Sys) : Act → Bool
  | .advance i f =>
    match s.handlers[i]? with
    | some ⟨_, .save _ _ _⟩ => f = .none
    | _ => true
  | _ => true

/-- The steps of a run in which a call is made when the others have returned, and saves succeed. The
process may end anywhere. -/
def Sequential (p : Sys × State) (act : Act) : Prop := oneAtATime p.1 act = true ∧ savesSucceed p.1 act = true

instance (p : Sys × State) (act : Act) : Decidable (Sequential p act) := inferInstanceAs (Decidable (_ ∧ _))

/-- What a handler in progress has been accepted to do. -/
def Pc.job : Pc → Option Job
  | .takeTrigger job | .stopPlayer job | .swap job | .save job _ _ | .announce job _ => some job
  | .spawn sch announces _ | .store sch announces _ _ => some (.schedule sch announces)
  | .begin | .done _ => none

theorem Makes.job (h : Makes pc th) (hth : th.pc.isReturned = false) :
    pc.isDone = false ∧ ∃ job, pc.job = some job ∧ th.desired = job.desired := by
  cases h with
  | saving job snapshot transition => exact ⟨rfl, job, rfl, rfl⟩
  | spawning sch announces transition => exact ⟨rfl, .schedule sch announces, rfl, rfl⟩
  | storing sch announces transition handle => exact ⟨rfl, .schedule sch announces, rfl, rfl⟩
  | announcing job transition => exact ⟨rfl, job, rfl, rfl⟩
  | returned job transition => cases hth

/-- While a handler has not swapped the state, every other call has returned. -/
theorem Refines.allReturned (h : Refines s c order) (hI : Settled s) (hi : s.handlers[i]? = some ⟨request, pc⟩)
    (hdone : pc.isDone = false) (hpc : pc.hasSwapped = false) : Clones.AllReturned c := by
  intro th hth
  obtain ⟨k, hk⟩ := List.mem_iff_getElem?.mp hth
  have hlt : k < order.length := h.counted ▸ (List.getElem?_eq_some_iff.mp hk).1
  obtain ⟨hd, hj, hmakes⟩ := h.made k _ th (List.getElem?_eq_getElem hlt) hk
  cases hret : th.pc.isReturned with
  | true => rfl
  | false =>
    have heq := hI.single _ i _ _ hj hi (hmakes.job hret).1 hdone
    rw [heq] at hj
    obtain rfl := Option.some.inj (hj.symm.trans hi)
    rw [hmakes.hasSwapped] at hpc
    cases hpc

/-- In a sequential run the steps a step stands for are those of a sequential run of the clones. -/
theorem StandsFor.sequential {cs : List Clones.Act} {c' : Clones.Sys} {settled : State} {order' : List ℕ}
    (h : StandsFor s c order act cs) (hR : Refines s c order) (hI : Settled s) (hcoherent : Coherence s)
    (hok : Sequential (s, settled) act) (hrun : Machine.Run Clones.step Machine.anyStep c cs c')
    (hR' : Refines t c' order') :
    Machine.Run (Machine.track Clones.step Clones.settledNext) Clones.OneAtATime (c, settled) cs
      (c', settledAfter settled s act t) := by
  cases h with
  | nothing hret =>
    cases hrun
    rw [hret]
    exact .nil
  | @swaps i f request job hi =>
    cases hrun with
    | cons _ hcall hrun =>
      cases hrun with
      | cons _ hswap hrun =>
        cases hrun
        have hfits := (hcoherent.handlers _ (List.mem_of_getElem? hi) _ rfl).2
        have hsettled : settledAfter settled s (.advance i f) t = settled := by simp only [settledAfter, hi]
        rw [hsettled]
        refine .cons ⟨hR.allReturned hI hi rfl rfl, ?_⟩ (Machine.track_of_step hcall _) (.single trivial (Machine.track_of_step hswap _))
        rw [Job.desired_call]
        exact hfits
  | @saves i k f hk request job snapshot transition hi =>
    cases hrun with
    | cons _ hsave hrun =>
      cases hrun
      have hf : f = .none := by simpa [Sequential, savesSucceed, hi] using hok.2
      have hsettled : settledAfter settled s (.advance i f) t = settled := by simp only [settledAfter, hi]
      rw [hsettled]
      exact .single hf (Machine.track_of_step hsave _)
  | @returns i k f hk request job transition hi =>
    cases hrun with
    | cons _ hret hrun =>
      cases hrun
      have hlt : k < c.calls.length := hR.counted ▸ (List.getElem?_eq_some_iff.mp hk).1
      obtain ⟨hd, hi', hmakes⟩ := hR.made k i _ hk (List.getElem?_eq_getElem hlt)
      obtain rfl := Option.some.inj (hi'.symm.trans hi)
      have hdesired : (c.calls[k]?.map Clones.Thread.desired).getD settled = job.desired := by
        rw [List.getElem?_eq_getElem hlt]
        generalize c.calls[k] = th at hmakes
        cases hmakes
        rfl
      have hsettled : settledAfter settled s (.advance i f) t = job.desired := by simp only [settledAfter, hi]
      rw [hsettled, ← hdesired]
      exact .single trivial (Machine.track_of_step hret _)
  | @restarts env =>
    cases hrun with
    | cons _ hrestart hrun =>
      cases hrun
      have hsettled : settledAfter settled s (.restart env) t = c'.daemon.inner := congrArg AlarmDaemon.inner hR'.daemon.symm
      rw [hsettled]
      exact .single trivial (Machine.track_of_step hrestart _)

/-- Memory and disk, in a sequential run: a restart finds the settled state, or the one a handler in
progress asks for. -/
theorem Refines.restart {settled : State} (hR : Refines s c order) (h : Clones.Consistent c settled) (now : WallClock) :
    ∃ d r, AlarmDaemon.newPersistent .none now s.control.daemon.persistence.crashed = .ok (d, r) ∧
      (d.inner = settled ∨ ∃ hd ∈ s.handlers, hd.pc.isDone = false ∧
        ∃ job, hd.pc.job = some job ∧ d.inner = job.desired) := by
  rw [← hR.daemon]
  by_cases hall : Clones.AllReturned c
  · obtain ⟨ha, rfl⟩ := h.idle hall
    obtain ⟨d, r, hn, hd⟩ := Clones.newPersistent_of_stored now ha
    exact ⟨d, r, hn, .inl hd⟩
  · -- the call in progress knows what is on disk
    obtain ⟨th, hm, hn⟩ : ∃ th ∈ c.calls, th.pc.isReturned = false := by
      simpa [Clones.AllReturned] using hall
    have hb := h.busy th hm
    obtain ⟨k, hk⟩ := List.mem_iff_getElem?.mp hm
    have hlt : k < order.length := hR.counted ▸ (List.getElem?_eq_some_iff.mp hk).1
    obtain ⟨hd, hi, hmakes⟩ := hR.made k _ th (List.getElem?_eq_getElem hlt) hk
    obtain ⟨hdone, job, hjob, hdesired⟩ := hmakes.job hn
    obtain ⟨request, pc⟩ := hd
    obtain ⟨desired, pc'⟩ := th
    cases pc' with
    | lock => cases hmakes
    | queued snapshot r =>
      obtain ⟨-, -, hstored, -⟩ := hb
      obtain ⟨d, r, hnp, hd⟩ := Clones.newPersistent_of_stored now hstored
      exact ⟨d, r, hnp, .inl hd⟩
    | joined r =>
      obtain ⟨hinner, ha⟩ := hb
      obtain ⟨d, r, hnp, heq⟩ := Clones.newPersistent_of_stored now ha
      exact ⟨d, r, hnp, .inr ⟨_, List.mem_of_getElem? hi, hdone, job, hjob, (heq.trans hinner).trans hdesired⟩⟩
    | returned r => cases hn

/-- In a sequential run, the clones that the handlers are know what is on disk. -/
theorem consistent_of_run {host : Host} {env : Env} {settled : State}
    (h : Machine.Run (Machine.track step settledAfter) Sequential (fresh host env ⟨.disarmed, {}⟩, .disarmed) as
      (s, settled)) :
    ∃ c order, Refines s c order ∧ Clones.Consistent c settled := by
  have hstart : Coherence (fresh host env ⟨.disarmed, {}⟩) :=
    ⟨State.coherent_disarmed, ⟨{}, rfl, savable_disarmed.1⟩, by simp [fresh]⟩
  have hrefines : ∃ order, Refines (fresh host env ⟨.disarmed, {}⟩) ⟨⟨.disarmed, {}⟩, []⟩ order :=
    ⟨[], refines_fresh host env _⟩
  have hclones : Clones.Consistent ⟨⟨.disarmed, {}⟩, []⟩ .disarmed :=
    ⟨Pool.atMostOne_nil, fun _ => ⟨rfl, rfl⟩, by simp⟩
  obtain ⟨cs, ⟨c, settled'⟩, hrun, -, -, heq, order, hR⟩ : ∃ cs, ∃ q : Clones.Sys × State,
      Machine.Run (Machine.track Clones.step Clones.settledNext) Clones.OneAtATime
        (⟨⟨.disarmed, {}⟩, []⟩, .disarmed) cs q ∧ Settled s ∧ Coherence s ∧ settled = q.2 ∧ ∃ order, Refines s q.1 order := by
    refine h.refine (R := fun p (q : Clones.Sys × State) => Settled p.1 ∧ Coherence p.1 ∧ p.2 = q.2 ∧ ∃ order, Refines p.1 q.1 order)
      (t := (⟨⟨.disarmed, {}⟩, []⟩, .disarmed)) (fun p act p' q hp hok hs => ?_) ⟨settled_fresh host env _, hstart, rfl, hrefines⟩
    obtain ⟨hI, hcoherent, heq, order, hR⟩ := hp
    obtain ⟨hs, hsettled⟩ := Machine.track_eq_some_iff.mp hs
    obtain ⟨cs, c', order', hstands, hrun, hR'⟩ := hR.step hs
    have hrun' := hstands.sequential hR hI hcoherent hok hrun hR'
    rw [← hsettled, heq] at hrun'
    exact ⟨cs, (c', p'.2), hrun', hI.step hok.1 hs, hcoherent.step hs, rfl, order', hR'⟩
  obtain rfl : settled = settled' := heq
  exact ⟨c, order, hR, hrun.invariant (I := fun p => Clones.Consistent p.1 p.2) Clones.Consistent.step hclones⟩

/-- A Disarm that has saved, but has not returned, after an Arm and a restart. -/
def endMidDisarm : List Act := arming ++ .restart (fun _ => none) :: .request .disarm :: advances 0 5

end HelmAlarm.Ipc
