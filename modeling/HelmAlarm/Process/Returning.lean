import HelmAlarm.Audio.Answers
import HelmAlarm.Process.World

/-!
# The wait for a Stop

A handler that stops the player waits for its call of `stop` to return, and the player
waits for the ack of its worker no longer than its timeout. So the wait is over whatever
the worker does, or does not do: from every state of a run in which a handler waits, by
the return of its own call and the passing of time, and at the latest when the timeout
has passed since the Stop was sent: `wait_ends`.

This is about that wait and no other. How long a save takes, and how long a call waits
for the lock of the persister, is not said here.
-/

namespace HelmAlarm.Process

open HelmAlarm.Library HelmAlarm.Daemon HelmAlarm.Audio

variable {w v : World} {act : Act} {as : List Act} {i k k' : ℕ}

/-- Handler `i` waits for call `k` of the player, which has not returned. -/
def Awaits (w : World) (i k : ℕ) : Prop :=
  (i, k) ∈ w.waits ∧ ∃ caller, w.audio.callers[k]? = some caller ∧ caller.reply = none

/-- The handler is about to stop the player. -/
def AtStop (s : Ipc.Sys) (i : ℕ) : Prop := ∃ request job, s.handlers[i]? = some ⟨request, .stopPlayer job⟩

/-- The handler has just stopped the player. -/
def AtSwap (s : Ipc.Sys) (i : ℕ) : Prop := ∃ request job, s.handlers[i]? = some ⟨request, .swap job⟩

theorem AtSwap.not_atStop {s : Ipc.Sys} (h : AtSwap s i) : ¬ AtStop s i := by
  intro hstop
  obtain ⟨request, job, hi⟩ := h
  obtain ⟨request', job', hi'⟩ := hstop
  cases hi.symm.trans hi'

/-! ### What a step does to the waits -/

/-- What a step of the player by itself leaves of the callers: none is new, and none waits again. -/
theorem callers_of_own {p q : CpalAudio.Player} {act : CpalAudio.Act} (hown : isOwn act = true)
    (hs : CpalAudio.step p act = some q) :
    q.now = p.now ∧ q.callers.length = p.callers.length ∧ ∀ (k : ℕ) (caller : CpalAudio.Caller), q.callers[k]? = some caller →
      ∃ caller' : CpalAudio.Caller, p.callers[k]? = some caller' ∧ caller'.since = caller.since ∧
        (caller.reply = none → caller'.reply = none) := by
  have hkept : ∀ (k : ℕ) (caller : CpalAudio.Caller), p.callers[k]? = some caller → ∃ caller' : CpalAudio.Caller,
      p.callers[k]? = some caller' ∧ caller'.since = caller.since ∧ (caller.reply = none → caller'.reply = none) :=
    fun k caller hk => ⟨caller, hk, rfl, id⟩
  cases CpalAudio.stepped_of_step hs with
  | received hi | gaveUp hi _ =>
    refine ⟨rfl, List.length_set, fun k caller hk => ?_⟩
    rcases Pool.of_set hk with ⟨rfl, rfl⟩ | ⟨-, hk⟩
    · exact ⟨_, hi, rfl, fun _ => rfl⟩
    · exact hkept k caller hk
  | worked hw =>
    cases hw with
    | acked hpc =>
      refine ⟨rfl, List.length_modify _ _ _, fun k caller hk => ?_⟩
      rw [List.getElem?_modify] at hk
      obtain ⟨caller', hk', rfl⟩ := Option.map_eq_some_iff.mp hk
      refine ⟨caller', hk', ?_⟩
      split <;> exact ⟨rfl, id⟩
    | _ => exact ⟨rfl, rfl, hkept⟩
  | called command hopen => cases hown
  | closed hopen hall => cases hown
  | ticked ms => cases hown
  | _ => exact ⟨rfl, rfl, hkept⟩

/-- What the others do leaves of a caller: the last one may be new. -/
theorem caller_of_heard {s : Ipc.Sys} {act : Ipc.Act} {p q : CpalAudio.Player} {caller : CpalAudio.Caller}
    (hs : CpalAudio.step.exec p (heard s act) = some q) (hk : q.callers[k]? = some caller) :
    p.callers[k]? = some caller ∨ k = p.callers.length ∧ caller = { since := p.now } := by
  rcases heard_cases hs with ⟨ms, -, rfl⟩ | ⟨c, -, rfl⟩
  · exact .inl hk
  · exact (Pool.of_add hk).symm

/-- It adds a caller for every command, and lets the time pass. -/
theorem counts_of_heard {s : Ipc.Sys} {act : Ipc.Act} {p q : CpalAudio.Player}
    (hs : CpalAudio.step.exec p (heard s act) = some q) (hcounted : p.callers.length = p.sent.length) :
    p.now ≤ q.now ∧ q.callers.length = q.sent.length := by
  rcases heard_cases hs with ⟨ms, -, rfl⟩ | ⟨c, -, rfl⟩
  · exact ⟨Nat.le_add_right _ _, hcounted⟩
  · exact ⟨le_rfl, by simp only [List.length_append, hcounted, List.length_singleton]⟩

/-- A handler that does not take the step is where it was. -/
theorem handlers_of_step {s t : Ipc.Sys} {act : Ipc.Act} {hd : Ipc.Handler} (hs : Ipc.step s act = some t)
    (hrestart : isRestart act = false) (hother : ∀ f, act ≠ .advance i f) (hi : s.handlers[i]? = some hd) :
    t.handlers[i]? = some hd := by
  cases Ipc.stepped_of_step hs with
  | requested r => exact Pool.add_of_some hi
  | @advanced j f request pc pc' control hj hm =>
    have hij : i ≠ j := by
      rintro rfl
      exact hother f rfl
    exact (Pool.set_of_ne hij).trans hi
  | restarted ha hd => cases hrestart
  | _ => exact hi

/-- The command of a handler is the Stop it comes to. -/
theorem command_advance {s t : Ipc.Sys} {f : Faults} {c : PlayerCommand} (h : command s (.advance i f) = some c)
    (hs : Ipc.step s (.advance i f) = some t) : c = .stop ∧ AtStop s i ∧ AtSwap t i := by
  simp only [command] at h
  split at h
  · rename_i request job hi
    refine ⟨(Option.some.inj h).symm, ⟨request, job, hi⟩, request, job, ?_⟩
    cases Ipc.stepped_of_step hs with
    | advanced hi' hm =>
      obtain ⟨rfl, rfl⟩ := Ipc.Handler.mk.inj (Option.some.inj (hi.symm.trans hi'))
      cases hm with
      | stopped => exact Pool.set_self hi
    | ran ha => cases ha
  · cases h

/-- What is waited for after a step was waited for before it, or is the Stop of the step. -/
theorem mem_waitsAfter {act : Ipc.Act} (h : (i, k) ∈ w.waitsAfter act) : (i, k) ∈ w.waits ∨
    k = w.audio.sent.length ∧ ∃ f c, act = .advance i f ∧ command w.ipc (.advance i f) = some c := by
  unfold World.waitsAfter at h
  split at h
  · rename_i j f
    split at h
    · rename_i c hc
      refine (List.mem_append.mp h).imp_right fun hm => ?_
      obtain ⟨rfl, rfl⟩ := Prod.mk.inj (List.mem_singleton.mp hm)
      exact ⟨rfl, f, c, rfl, hc⟩
    · exact .inl h
  · exact .inl h

/-! ### What holds of the waits -/

/-- What holds of the calls that are waited for. -/
structure Waiting (w : World) : Prop where
  /-- A caller does not wait for the future. -/
  since : ∀ caller ∈ w.audio.callers, caller.since ≤ w.audio.now
  /-- Every command has a caller. -/
  counted : w.audio.callers.length = w.audio.sent.length
  /-- What is waited for is a Stop. -/
  stops : ∀ wait ∈ w.waits, w.audio.sent[wait.2]? = some .stop
  /-- A handler that waits has just sent it. -/
  swaps : ∀ i k, Awaits w i k → AtSwap w.ipc i
  /-- A handler waits for one call. -/
  once : ∀ i k k', Awaits w i k → Awaits w i k' → k = k'

/-- A call that is waited for, and has not returned, blocks its handler. -/
theorem Awaits.blocked (h : Awaits w i k) : w.blocked i = true := by
  obtain ⟨hwait, caller, hk, hreply⟩ := h
  refine List.any_eq_true.mpr ⟨(i, k), hwait, ?_⟩
  simp [hk, hreply]

/-- Nothing else does. -/
theorem Waiting.exists_awaits (h : Waiting w) (hb : w.blocked i = true) : ∃ k, Awaits w i k := by
  obtain ⟨⟨j, k⟩, hwait, hcond⟩ := List.any_eq_true.mp hb
  simp only [Bool.and_eq_true, decide_eq_true_eq, Bool.not_eq_true'] at hcond
  obtain ⟨rfl, hnone⟩ := hcond
  have hlt : k < w.audio.callers.length := by
    rw [h.counted]
    exact (List.getElem?_eq_some_iff.mp (h.stops _ hwait)).1
  have hk := List.getElem?_eq_getElem hlt
  refine ⟨k, hwait, _, hk, ?_⟩
  simpa [hk] using hnone

/-- A handler that waits after a step waited before it and has not moved, or the step was its Stop. -/
theorem Waiting.awaits_of_step (h : Waiting w) (hs : step w act = some v) (ha : Awaits v i k) :
    Awaits w i k ∧ AtSwap v.ipc i ∨ k = w.audio.sent.length ∧ AtStop w.ipc i ∧ AtSwap v.ipc i := by
  obtain ⟨hwait, caller, hk, hreply⟩ := ha
  cases stepped_of_step hs with
  | owned hown hp =>
    obtain ⟨-, -, hcallers⟩ := callers_of_own hown hp
    obtain ⟨caller', hk', -, hkept⟩ := hcallers k caller hk
    have hawaits : Awaits w i k := ⟨hwait, caller', hk', hkept hreply⟩
    exact .inl ⟨hawaits, h.swaps i k hawaits⟩
  | restarted hipc => cases hwait
  | @ran act ipc audio hready hrestart hipc hp =>
    rcases mem_waitsAfter hwait with hwait | ⟨rfl, f, c, rfl, hc⟩
    · rcases caller_of_heard hp hk with hk | ⟨rfl, -⟩
      · -- it waits, so the step is not its own
        have hawaits : Awaits w i k := ⟨hwait, caller, hk, hreply⟩
        obtain ⟨request, job, hi⟩ := h.swaps i k hawaits
        have hother : ∀ f, act ≠ .advance i f := by
          rintro f rfl
          rw [World.ready, hawaits.blocked] at hready
          cases hready
        exact .inl ⟨hawaits, request, job, handlers_of_step hipc hrestart hother hi⟩
      · have hlt := (List.getElem?_eq_some_iff.mp (h.stops _ hwait)).1
        exact absurd (h.counted ▸ hlt) (lt_irrefl _)
    · obtain ⟨-, hstop, hswap⟩ := command_advance hc hipc
      exact .inr ⟨rfl, hstop, hswap⟩

theorem Waiting.step (h : Waiting w) (hs : step w act = some v) : Waiting v where
  since := by
    cases stepped_of_step hs with
    | owned hown hp =>
      intro caller hm
      obtain ⟨j, hj⟩ := List.mem_iff_getElem?.mp hm
      obtain ⟨hnow, -, hcallers⟩ := callers_of_own hown hp
      obtain ⟨caller', hj', hsince, -⟩ := hcallers j caller hj
      rw [hnow, ← hsince]
      exact h.since _ (List.mem_of_getElem? hj')
    | restarted hipc => exact List.forall_mem_nil _
    | ran hready hrestart hipc hp =>
      intro caller hm
      have hle := (counts_of_heard hp h.counted).1
      obtain ⟨j, hj⟩ := List.mem_iff_getElem?.mp hm
      rcases caller_of_heard hp hj with hj | ⟨-, rfl⟩
      · exact (h.since _ (List.mem_of_getElem? hj)).trans hle
      · exact hle
  counted := by
    cases stepped_of_step hs with
    | owned hown hp =>
      obtain ⟨-, hlength, -⟩ := callers_of_own hown hp
      rw [hlength, h.counted, sent_of_own hown hp]
    | restarted hipc => rfl
    | ran hready hrestart hipc hp => exact (counts_of_heard hp h.counted).2
  stops := by
    cases stepped_of_step hs with
    | owned hown hp => exact fun wait hm => (sent_of_own hown hp).symm ▸ h.stops wait hm
    | restarted hipc => exact List.forall_mem_nil _
    | ran hready hrestart hipc hp =>
      rintro ⟨j, k⟩ hm
      rw [sent_of_exec hp]
      rcases mem_waitsAfter hm with hm | ⟨rfl, f, c, rfl, hc⟩
      · have hstop := h.stops _ hm
        rw [List.getElem?_append_left (List.getElem?_eq_some_iff.mp hstop).1]
        exact hstop
      · obtain ⟨rfl, -⟩ := command_advance hc hipc
        rw [hc]
        exact Pool.add_self
  swaps := by
    intro i k ha
    rcases h.awaits_of_step hs ha with ⟨-, hswap⟩ | ⟨-, -, hswap⟩ <;> exact hswap
  once := by
    intro i k k' ha ha'
    rcases h.awaits_of_step hs ha with ⟨hb, -⟩ | ⟨hk, hstop, -⟩ <;>
      rcases h.awaits_of_step hs ha' with ⟨hb', -⟩ | ⟨hk', hstop', -⟩
    · exact h.once i k k' hb hb'
    · exact absurd hstop' (h.swaps i k hb).not_atStop
    · exact absurd hstop (h.swaps i k' hb').not_atStop
    · exact hk.trans hk'.symm

theorem waiting_of_run {okw : World → Act → Prop} {host : Ipc.Host} {env : Ipc.Env} {daemon : AlarmDaemon}
    (h : Machine.Run step okw (fresh host env daemon) as w) : Waiting w := by
  refine h.invariant (I := Waiting) (fun _ _ _ hI _ hs => hI.step hs) ?_
  have hnone : ∀ i k, ¬ Awaits (fresh host env daemon) i k := fun _ _ ha => List.not_mem_nil ha.1
  exact ⟨List.forall_mem_nil _, rfl, List.forall_mem_nil _, fun i k ha => absurd ha (hnone i k),
    fun i k _ ha => absurd ha (hnone i k)⟩

/-! ### The end of a wait -/

/-- Time passes, or call `k` of the player returns. -/
def isReturn (k : ℕ) : Act → Bool
  | .ipc (.tick _ _) => true
  | .audio (.receive j) | .audio (.giveUp j) => j = k
  | _ => false

/-- How much time passes. -/
def elapsed : Act → ℕ
  | .ipc (.tick ms _) => ms
  | _ => 0

/-- Call `k` returns within `ms`, with no step but its own. -/
def ReturnsIn (k ms : ℕ) (w v : World) : Prop :=
  ∃ bs, Machine.Run step Machine.anyStep w bs v ∧ (∀ act ∈ bs, isReturn k act = true) ∧ (bs.map elapsed).sum ≤ ms

/-- A handler whose call has returned goes on. -/
theorem Waiting.ready (h : Waiting w) (ha : Awaits w i k) (hwaits : v.waits = w.waits) {caller : CpalAudio.Caller}
    (hcallers : v.audio.callers = w.audio.callers.set k caller) (hreply : caller.reply.isSome = true)
    (hv : Waiting v) : v.blocked i = false := by
  rw [← Bool.not_eq_true]
  intro hb
  obtain ⟨k', hwait, caller', hk', hnone⟩ := hv.exists_awaits hb
  rw [hcallers] at hk'
  rcases Pool.of_set hk' with ⟨-, rfl⟩ | ⟨hne, hk'⟩
  · rw [hnone] at hreply
    cases hreply
  · exact hne (h.once i k' k ⟨hwaits ▸ hwait, caller', hk', hnone⟩ ha)

/-- A handler that has sent its Stop, and does not wait, takes its next step. -/
theorem advance_of_ready (hswap : AtSwap w.ipc i) (hready : w.blocked i = false) (f : Faults) :
    ∃ v, step w (.ipc (.advance i f)) = some v := by
  obtain ⟨request, job, hi⟩ := hswap
  have hheard : heard w.ipc (.advance i f) = [] := by
    simp only [heard, command, hi]
    rfl
  have hipc : ∃ ipc, Ipc.step w.ipc (.advance i f) = some ipc := by
    simp only [Ipc.step, hi, Ipc.Control.move]
    cases w.ipc.control.daemon.inner.swap job.desired <;> exact ⟨_, rfl⟩
  obtain ⟨ipc, hipc⟩ := hipc
  have hr : w.ready (.advance i f) = true := by simp only [World.ready, hready, Bool.not_false]
  exact ⟨_, by simp only [step, hr, if_true, hipc, Option.bind_some, isRestart, Bool.false_eq_true, if_false,
    hheard, Machine.exec_nil, Option.map_some]; rfl⟩

/-- What a handler waits for returns when its timeout has passed, or at once if its ack has come. -/
theorem returns_of_awaits (h : Waiting w) (ha : Awaits w i k) :
    ∃ caller v, w.audio.callers[k]? = some caller ∧ caller.since ≤ w.audio.now ∧
      ReturnsIn k (caller.since + CpalAudio.commandAckTimeout - w.audio.now) w v ∧
      v.ipc.handlers = w.ipc.handlers ∧ v.blocked i = false := by
  obtain ⟨hwait, ⟨since, ack, reply⟩, hk, rfl⟩ := ha
  have ha : Awaits w i k := ⟨hwait, _, hk, rfl⟩
  have hsince : since ≤ w.audio.now := h.since _ (List.mem_of_getElem? hk)
  cases ack with
  | some result =>
    have hs : step w (.audio (.receive k)) = some { w with
        audio.callers := w.audio.callers.set k ⟨since, some result, some result⟩ } := by
      simp only [step, isOwn, if_true, CpalAudio.step, hk, Option.map_some]
    exact ⟨_, _, hk, hsince, ⟨_, .single trivial hs, by simp [isReturn], Nat.zero_le _⟩, rfl,
      h.ready ha rfl rfl rfl (h.step hs)⟩
  | none =>
    -- the ack has not come, and the call gives up when it has waited long enough
    let ms := since + CpalAudio.commandAckTimeout - w.audio.now
    have hlate : since + CpalAudio.commandAckTimeout ≤ w.audio.now + ms := by omega
    have htick : step w (.ipc (.tick ms w.ipc.host.wall)) = some { w with
        ipc.host := w.ipc.host.tick ms w.ipc.host.wall
        audio.now := w.audio.now + ms } := rfl
    have hgive : step { w with
        ipc.host := w.ipc.host.tick ms w.ipc.host.wall
        audio.now := w.audio.now + ms } (.audio (.giveUp k)) = some { w with
        ipc.host := w.ipc.host.tick ms w.ipc.host.wall
        audio.now := w.audio.now + ms
        audio.callers := w.audio.callers.set k ⟨since, none, some (.error .workerUnavailable)⟩ } := by
      simp only [step, isOwn, if_true, CpalAudio.step, hk, if_pos hlate, Option.map_some]
    exact ⟨_, _, hk, hsince, ⟨_, .cons trivial htick (.single trivial hgive), by simp [isReturn], by simp [elapsed, ms]⟩,
      rfl, h.ready ha rfl rfl rfl ((h.step htick).step hgive)⟩

/-- From every state of every run in which a handler waits, its wait is for a Stop it has sent, and ends
at the latest when the ack timeout has passed since then, with no step of the worker, of the callbacks, of
a handler or of a trigger task: the call returns, and the handler can go on. -/
theorem wait_ends {host : Ipc.Host} {env : Ipc.Env} {daemon : AlarmDaemon}
    (h : Machine.Run step Machine.anyStep (fresh host env daemon) as w) (hb : w.blocked i = true) :
    ∃ k caller v, (i, k) ∈ w.waits ∧ w.audio.sent[k]? = some .stop ∧ w.audio.callers[k]? = some caller ∧
      caller.since ≤ w.audio.now ∧ ReturnsIn k (caller.since + CpalAudio.commandAckTimeout - w.audio.now) w v ∧
      v.ipc.handlers = w.ipc.handlers ∧ v.blocked i = false ∧ ∀ f, ∃ u, step v (.ipc (.advance i f)) = some u := by
  have hw := waiting_of_run h
  obtain ⟨k, ha⟩ := hw.exists_awaits hb
  obtain ⟨caller, v, hk, hsince, hreturns, hhandlers, hready⟩ := returns_of_awaits hw ha
  have hswap : AtSwap v.ipc i := by
    obtain ⟨request, job, hi⟩ := hw.swaps i k ha
    exact ⟨request, job, hhandlers ▸ hi⟩
  exact ⟨k, caller, v, ha.1, hw.stops _ ha.1, hk, hsince, hreturns, hhandlers, hready, advance_of_ready hswap hready⟩

/-- An Arm up to its Stop, while the worker hangs, and 0.4 s after it. -/
def hanging : List Act :=
  (Ipc.Act.request (.arm "builtin:horn") :: Ipc.advances 0 3 ++ [Ipc.Act.tick 400 Ipc.hornHost.wall]).map .ipc

theorem wait_ends_hanging :
    ∃ w v, Machine.Run step Machine.anyStep hornWorld hanging w ∧ w.blocked 0 = true ∧
      ReturnsIn 0 600 w v ∧ v.blocked 0 = false := by
  obtain ⟨w, hrun, hblocked, hwaits, hsince, hnow⟩ : ∃ w, Machine.Run step Machine.anyStep hornWorld hanging w ∧
      w.blocked 0 = true ∧ w.waits = [(0, 0)] ∧ w.audio.callers.map CpalAudio.Caller.since = [0] ∧ w.audio.now = 400 :=
    Machine.Run.exists_of_execIf (by decide +kernel)
  obtain ⟨k, caller, v, hwait, -, hk, -, hreturns, -, hready, -⟩ := wait_ends hrun hblocked
  obtain ⟨-, rfl⟩ := Prod.mk.inj (List.mem_singleton.mp (hwaits ▸ hwait))
  have hzero : caller.since = 0 := List.mem_singleton.mp (hsince ▸ List.mem_map_of_mem (List.mem_of_getElem? hk))
  rw [hzero, hnow] at hreturns
  exact ⟨w, v, hrun, hblocked, hreturns, hready⟩

end HelmAlarm.Process
