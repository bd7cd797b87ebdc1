import HelmAlarm.Library.Machine
import HelmAlarm.Library.Pool
import HelmAlarm.Daemon.AlarmDaemon

/-!
# Clones of the daemon

Any number of calls of `transition_to` on clones of one `AlarmDaemon`, and the
crash of the process under them. A call waits for the write lock and swaps the
state under it (`swap`: nothing else happens to the state while the lock is
held); if that changed anything its save is queued on the blocking pool, where
the file is opened on first use (`openDb`) and the transaction commits (`save`),
in whatever order the pool runs the jobs; then the call returns (`ret`).
`restart` is a crash at this point, followed by `new_persistent`.
-/

namespace HelmAlarm.Daemon.Clones

open HelmAlarm.Library

/-- Where a call of `transition_to` stands. -/
inductive Pc where
  /-- Waiting for the write lock. -/
  | lock
  /-- Its save is queued on the blocking pool. -/
  | queued (snapshot : PersistedState) (transition : Transition)
  /-- Nothing left to do but to return. -/
  | joined (transition : Transition)
  /-- It has returned. -/
  | returned (transition : Transition)
  deriving DecidableEq, Repr

/-- The call has returned. -/
def Pc.isReturned : Pc → Bool
  | .returned _ => true
  | _ => false

/-- The call's save is queued. -/
def Pc.isQueued : Pc → Bool
  | .queued _ _ => true
  | _ => false

/-- A call: the state it asks for, and where it stands. -/
structure Thread where
  /-- The state it asks for. -/
  desired : State
  /-- Where it stands. -/
  pc : Pc
  deriving DecidableEq, Repr

/-- The daemon and the calls made on its clones. -/
structure Sys where
  /-- The state and the disk, which the clones share. -/
  daemon : AlarmDaemon
  /-- The calls, in the order they were made. -/
  calls : List Thread
  deriving DecidableEq, Repr

/-- What can happen. -/
inductive Act where
  /-- A client makes a call. -/
  | call (c : Call)
  /-- Call `i` takes the write lock, swaps the state and releases the lock. -/
  | swap (i : ℕ)
  /-- The save of call `i` takes the database lock, which opens the file on first use. -/
  | openDb (i : ℕ) (f : Faults)
  /-- The save of call `i` runs to its end. -/
  | save (i : ℕ) (f : Faults)
  /-- Call `i` returns. -/
  | ret (i : ℕ)
  /-- The process crashes and is started again. -/
  | restart (now : WallClock)

/-- The machine. -/
def step : Machine Sys Act := fun s act =>
  match act with
  | .call c => some { s with calls := s.calls ++ [⟨c.desired, .lock⟩] }
  | .swap i =>
    match s.calls[i]? with
    | some ⟨desired, .lock⟩ =>
      match s.daemon.inner.swap desired with
      | none => some { s with calls := s.calls.set i ⟨desired, .joined .noChange⟩ }
      | some (state, snapshot, transition) =>
        some ⟨{ s.daemon with inner := state }, s.calls.set i ⟨desired, .queued snapshot transition⟩⟩
    | _ => none
  | .openDb i f =>
    match s.calls[i]? with
    | some ⟨_, .queued _ _⟩ =>
      some { s with daemon.persistence := (s.daemon.persistence.lockDb f).2 }
    | _ => none
  | .save i f =>
    match s.calls[i]? with
    | some ⟨desired, .queued snapshot transition⟩ =>
      some ⟨{ s.daemon with persistence := (s.daemon.persistence.save f snapshot).2 },
        s.calls.set i ⟨desired, .joined transition⟩⟩
    | _ => none
  | .ret i =>
    match s.calls[i]? with
    | some ⟨desired, .joined transition⟩ =>
      some { s with calls := s.calls.set i ⟨desired, .returned transition⟩ }
    | _ => none
  | .restart now =>
    match AlarmDaemon.newPersistent .none now s.daemon.persistence.crashed with
    | .error _ => none
    | .ok (daemon, _) => some ⟨daemon, []⟩

/-- Every call has returned. -/
def AllReturned (s : Sys) : Prop := ∀ th ∈ s.calls, th.pc.isReturned = true

instance (s : Sys) : Decidable (AllReturned s) := inferInstanceAs (Decidable (∀ th ∈ s.calls, _))

/-! ### What each action does -/

variable {s t : Sys} {i : ℕ} {f : Faults}

theorem step_call {c : Call} :
    step s (.call c) = some t ↔ t = { s with calls := s.calls ++ [⟨c.desired, .lock⟩] } := by
  simp only [step, Option.some.injEq]
  exact eq_comm

/-- A swap finds the call at the lock; it changes the state and queues a save, or does neither. -/
theorem step_swap (h : step s (.swap i) = some t) :
    ∃ desired, s.calls[i]? = some ⟨desired, .lock⟩ ∧
      (s.daemon.inner = desired ∧ t = { s with calls := s.calls.set i ⟨desired, .joined .noChange⟩ } ∨
       s.daemon.inner ≠ desired ∧ t = ⟨{ s.daemon with inner := desired }, s.calls.set i ⟨desired,
         .queued desired.toPersisted (.changed s.daemon.inner.status desired.status)⟩⟩) := by
  simp only [step] at h
  split at h
  · rename_i desired hc
    refine ⟨desired, hc, ?_⟩
    by_cases hd : s.daemon.inner = desired
    · rw [hd, State.swap_self] at h
      exact .inl ⟨hd, (Option.some.inj h).symm⟩
    · rw [State.swap_of_ne hd] at h
      exact .inr ⟨hd, (Option.some.inj h).symm⟩
  · cases h

theorem step_openDb (h : step s (.openDb i f) = some t) :
    t = { s with daemon.persistence := (s.daemon.persistence.lockDb f).2 } := by
  simp only [step] at h
  split at h
  · exact (Option.some.inj h).symm
  · cases h

/-- A save finds the call's job queued, and runs it. -/
theorem step_save (h : step s (.save i f) = some t) :
    ∃ desired snapshot transition, s.calls[i]? = some ⟨desired, .queued snapshot transition⟩ ∧
      t = ⟨{ s.daemon with persistence := (s.daemon.persistence.save f snapshot).2 },
        s.calls.set i ⟨desired, .joined transition⟩⟩ := by
  simp only [step] at h
  split at h
  · rename_i desired snapshot transition hc
    exact ⟨desired, snapshot, transition, hc, (Option.some.inj h).symm⟩
  · cases h

theorem step_ret (h : step s (.ret i) = some t) :
    ∃ desired transition, s.calls[i]? = some ⟨desired, .joined transition⟩ ∧
      t = { s with calls := s.calls.set i ⟨desired, .returned transition⟩ } := by
  simp only [step] at h
  split at h
  · rename_i desired transition hc
    exact ⟨desired, transition, hc, (Option.some.inj h).symm⟩
  · cases h

/-- What a restart finds is what was on disk. -/
theorem step_restart {now : WallClock} (h : step s (.restart now) = some t) :
    t.calls = [] ∧ t.daemon.Agrees ∧ s.daemon.persistence.stored = .ok t.daemon.inner.toPersisted := by
  simp only [step] at h
  split at h
  · cases h
  · rename_i daemon r hn
    obtain ⟨ha, hs⟩ := AlarmDaemon.newPersistent_agrees hn rfl
    obtain rfl := Option.some.inj h
    exact ⟨rfl, ha, (Persistence.stored_crashed _).symm.trans hs⟩

/-- A disk that can be read is one a restart works on. -/
theorem newPersistent_of_stored (now : WallClock) {p : Persistence} {state : State}
    (h : p.stored = .ok state.toPersisted) :
    ∃ d r, AlarmDaemon.newPersistent .none now p.crashed = .ok (d, r) ∧ d.inner = state := by
  rw [← Persistence.stored_crashed] at h
  unfold AlarmDaemon.newPersistent
  rw [← Persistence.load_none] at h
  generalize hl : p.crashed.load .none = l at h
  obtain ⟨res, q⟩ := l
  obtain rfl : res = .ok state.toPersisted := h
  exact ⟨_, _, rfl, State.ofPersisted_toPersisted state⟩

/-! ### The order of the saves -/

/-- The order in which states were changed and saved: call `i` made change number `stamp i`,
counted from `1`, and the newest change saved so far is `newest`. -/
structure Order where
  /-- How many changes there were. -/
  count : ℕ
  /-- Which change a call made. -/
  stamp : ℕ → ℕ
  /-- The newest change that was saved; `0` before the first. -/
  newest : ℕ

/-- The order before anything happened. -/
def Order.start : Order := ⟨0, fun _ => 0, 0⟩

/-- How an action changes the order: a swap that changes the state is the next change, and a
save saves its call's change. -/
def Order.next (o : Order) (s : Sys) (act : Act) (t : Sys) : Order :=
  match act with
  | .swap i =>
    if t.daemon.inner = s.daemon.inner then o
    else { o with count := o.count + 1, stamp := Function.update o.stamp i (o.count + 1) }
  | .save i _ => { o with newest := max o.newest (o.stamp i) }
  | _ => o

/-- The steps in which disk and memory stay together: the sound ids asked for fit, every save
succeeds, the process does not crash, and no save runs after the save of a later change. -/
def SavedInOrder (p : Sys × Order) : Act → Prop
  | .call c => c.desired.toPersisted.Fits
  | .save i f => f = .none ∧ p.2.newest ≤ p.2.stamp i
  | .restart _ => False
  | _ => True

instance (p : Sys × Order) : (act : Act) → Decidable (SavedInOrder p act)
  | .call c => inferInstanceAs (Decidable c.desired.toPersisted.Fits)
  | .save _ _ => inferInstanceAs (Decidable (_ ∧ _))
  | .restart _ => .isFalse id
  | .swap _ | .openDb _ _ | .ret _ => .isTrue trivial

/-- What holds of the daemon, its calls and the order of the saves: the last change is on disk,
or its save is queued. -/
structure InOrder (s : Sys) (o : Order) : Prop where
  /-- No save is of a change that was not made. -/
  bound : o.newest ≤ o.count
  /-- The calls' states fit. -/
  fits : ∀ th ∈ s.calls, th.desired.toPersisted.Fits
  /-- A queued save is of a change that was made and not saved. -/
  made : ∀ i th, s.calls[i]? = some th → th.pc.isQueued = true → o.stamp i ≤ o.count ∧ o.stamp i ≠ o.newest
  /-- Different queued saves are of different changes. -/
  inj : ∀ i j th th', s.calls[i]? = some th → s.calls[j]? = some th' → th.pc.isQueued = true →
    th'.pc.isQueued = true → o.stamp i = o.stamp j → i = j
  /-- The last change is on disk, or its save is queued. -/
  last : o.newest = o.count ∧ s.daemon.Agrees ∨
    o.newest < o.count ∧ ∃ i r, s.calls[i]? = some ⟨s.daemon.inner, .queued s.daemon.inner.toPersisted r⟩ ∧
      o.stamp i = o.count

/-- A call that moves without touching the daemon, neither from its queued save nor to one,
changes nothing of this. -/
theorem InOrder.move {o : Order} (h : InOrder s o) {th : Thread} {pc : Pc} (hi : s.calls[i]? = some th)
    (hq : th.pc.isQueued = false) (hq' : pc.isQueued = false) :
    InOrder { s with calls := s.calls.set i ⟨th.desired, pc⟩ } o where
  bound := h.bound
  fits := Pool.forall_set h.fits (h.fits th (List.mem_of_getElem? hi))
  made := by
    intro j th' hj hjq
    rcases Pool.of_set hj with ⟨-, rfl⟩ | ⟨-, hj⟩
    · rw [hq'] at hjq; cases hjq
    · exact h.made j th' hj hjq
  inj := by
    intro j k th₁ th₂ hj hk hjq hkq
    rcases Pool.of_set hj with ⟨-, rfl⟩ | ⟨-, hj⟩
    · rw [hq'] at hjq; cases hjq
    rcases Pool.of_set hk with ⟨-, rfl⟩ | ⟨-, hk⟩
    · rw [hq'] at hkq; cases hkq
    exact h.inj j k th₁ th₂ hj hk hjq hkq
  last := by
    rcases h.last with hl | ⟨hlt, j, r, hj, hs⟩
    · exact .inl hl
    · refine .inr ⟨hlt, j, r, ?_, hs⟩
      have hne : j ≠ i := by
        rintro rfl
        rw [hi] at hj
        obtain rfl := Option.some.inj hj
        cases hq
      rwa [Pool.set_of_ne hne]

/-- A swap that changes the state queues the save of the new last change. -/
theorem InOrder.swap {o : Order} (h : InOrder s o) {desired : State} {r : Transition}
    (hi : s.calls[i]? = some ⟨desired, .lock⟩) :
    InOrder ⟨{ s.daemon with inner := desired }, s.calls.set i ⟨desired, .queued desired.toPersisted r⟩⟩
      { o with count := o.count + 1, stamp := Function.update o.stamp i (o.count + 1) } where
  bound := Nat.le_succ_of_le h.bound
  fits := Pool.forall_set h.fits (h.fits ⟨desired, .lock⟩ (List.mem_of_getElem? hi))
  made := by
    intro j th hj hjq
    have hb := h.bound
    rcases Pool.of_set hj with ⟨rfl, -⟩ | ⟨hne, hj⟩
    · simp only [Function.update_self]
      omega
    · simp only [Function.update_of_ne hne]
      have := h.made j th hj hjq
      omega
  inj := by
    intro j k th₁ th₂ hj hk hjq hkq hs
    rcases Pool.of_set hj with ⟨rfl, -⟩ | ⟨hne, hj'⟩ <;> rcases Pool.of_set hk with ⟨rfl, -⟩ | ⟨hne', hk'⟩
    · rfl
    · have := (h.made k th₂ hk' hkq).1
      simp only [Function.update_self, Function.update_of_ne hne'] at hs
      omega
    · have := (h.made j th₁ hj' hjq).1
      simp only [Function.update_self, Function.update_of_ne hne] at hs
      omega
    · simp only [Function.update_of_ne hne, Function.update_of_ne hne'] at hs
      exact h.inj j k th₁ th₂ hj' hk' hjq hkq hs
  last := by
    have hb := h.bound
    exact .inr ⟨by simp only; omega, i, r, Pool.set_self hi, Function.update_self ..⟩

/-- A save that is not older than a change already saved moves the disk on; it is the last
change's, or that one is still queued. -/
theorem InOrder.save {o : Order} (h : InOrder s o) {desired : State} {p : PersistedState} {r : Transition}
    (hi : s.calls[i]? = some ⟨desired, .queued p r⟩) (ho : o.newest ≤ o.stamp i) :
    InOrder ⟨{ s.daemon with persistence := (s.daemon.persistence.save .none p).2 },
      s.calls.set i ⟨desired, .joined r⟩⟩ { o with newest := max o.newest (o.stamp i) } := by
  obtain ⟨hle, hne⟩ := h.made i _ hi rfl
  have hmax : max o.newest (o.stamp i) = o.stamp i := max_eq_right ho
  -- the last change is not saved yet: a save that is neither older nor newer is already gone
  obtain ⟨hlt, j, r', hj, hs⟩ : o.newest < o.count ∧ ∃ j r', s.calls[j]? =
      some ⟨s.daemon.inner, .queued s.daemon.inner.toPersisted r'⟩ ∧ o.stamp j = o.count := by
    rcases h.last with ⟨heq, -⟩ | hl
    · omega
    · exact hl
  refine ⟨?_, Pool.forall_set h.fits (h.fits ⟨desired, .queued p r⟩ (List.mem_of_getElem? hi)), ?_, ?_, ?_⟩
  · simp only [hmax]; exact hle
  · intro k th hk hkq
    rcases Pool.of_set hk with ⟨-, rfl⟩ | ⟨hki, hk⟩
    · cases hkq
    · simp only [hmax]
      exact ⟨(h.made k th hk hkq).1, fun he => hki (h.inj k i _ _ hk hi hkq rfl he)⟩
  · intro k l th₁ th₂ hk hl hkq hlq
    rcases Pool.of_set hk with ⟨-, rfl⟩ | ⟨-, hk⟩
    · cases hkq
    rcases Pool.of_set hl with ⟨-, rfl⟩ | ⟨-, hl⟩
    · cases hlq
    exact h.inj k l th₁ th₂ hk hl hkq hlq
  · simp only [hmax]
    by_cases hij : j = i
    · subst hij
      rw [hj] at hi
      obtain ⟨rfl, hp⟩ := Thread.mk.inj (Option.some.inj hi)
      obtain ⟨rfl, -⟩ := Pc.queued.inj hp
      refine .inl ⟨hs, ?_⟩
      rw [AlarmDaemon.Agrees, Persistence.stored_save_none]
      exact decodeState_encodeState (h.fits _ (List.mem_of_getElem? hj))
    · have hlt' : o.stamp i < o.count :=
        lt_of_le_of_ne hle fun he => hij (h.inj j i _ _ hj hi rfl rfl (hs.trans he.symm))
      exact .inr ⟨hlt', j, r', by rw [Pool.set_of_ne hij]; exact hj, hs⟩

theorem InOrder.step (p : Sys × Order) (act : Act) (q : Sys × Order) (h : InOrder p.1 p.2)
    (hok : SavedInOrder p act) (hstep : Machine.track Clones.step Order.next p act = some q) :
    InOrder q.1 q.2 := by
  obtain ⟨s, o⟩ := p
  obtain ⟨t, o'⟩ := q
  obtain ⟨hs, ho'⟩ := Machine.track_eq_some_iff.mp hstep
  simp only at h hs ho' ⊢
  subst ho'
  cases act with
  | call c =>
    obtain rfl := step_call.mp hs
    refine ⟨h.bound, Pool.forall_add h.fits hok, ?_, ?_, ?_⟩
    · intro j th hj hjq
      rcases Pool.of_add hj with ⟨-, rfl⟩ | hj
      · cases hjq
      · exact h.made j th hj hjq
    · intro j k th₁ th₂ hj hk hjq hkq
      rcases Pool.of_add hj with ⟨-, rfl⟩ | hj
      · cases hjq
      rcases Pool.of_add hk with ⟨-, rfl⟩ | hk
      · cases hkq
      exact h.inj j k th₁ th₂ hj hk hjq hkq
    · rcases h.last with hl | ⟨hlt, j, r, hj, he⟩
      · exact .inl hl
      · exact .inr ⟨hlt, j, r, Pool.add_of_some hj, he⟩
  | swap i =>
    obtain ⟨desired, hi, ⟨hd, rfl⟩ | ⟨hd, rfl⟩⟩ := step_swap hs
    · rw [Order.next, if_pos rfl]
      exact h.move hi rfl rfl
    · rw [Order.next, if_neg (Ne.symm hd)]
      exact h.swap hi
  | openDb i f =>
    obtain rfl := step_openDb hs
    refine ⟨h.bound, h.fits, h.made, h.inj, ?_⟩
    rcases h.last with ⟨he, ha⟩ | hl
    · exact .inl ⟨he, (Persistence.stored_lockDb _ _).trans ha⟩
    · exact .inr hl
  | save i f =>
    obtain ⟨desired, p, r, hi, rfl⟩ := step_save hs
    obtain ⟨rfl, ho⟩ := hok
    exact h.save hi ho
  | ret i =>
    obtain ⟨desired, r, hi, rfl⟩ := step_ret hs
    exact h.move hi rfl rfl
  | restart now => exact hok.elim

/-- When the saves run in the order of the changes, and every call has returned, what is on disk
is what is in memory. -/
theorem agrees_of_savedInOrder {d : AlarmDaemon} {as : List Act} {s : Sys} {o : Order} (hd : d.Agrees)
    (h : Machine.Run (Machine.track step Order.next) SavedInOrder (⟨d, []⟩, Order.start) as (s, o))
    (hret : AllReturned s) : s.daemon.Agrees := by
  have hinit : InOrder ⟨d, []⟩ Order.start :=
    ⟨le_rfl, by simp, by simp, by simp, .inl ⟨rfl, hd⟩⟩
  have hinv := h.invariant (I := fun p => InOrder p.1 p.2) InOrder.step hinit
  rcases hinv.last with ⟨-, ha⟩ | ⟨-, i, r, hi, -⟩
  · exact ha
  · have := hret _ (List.mem_of_getElem? hi)
    cases this

/-- A daemon started on no file. -/
def fresh : Sys := ⟨⟨.disarmed, {}⟩, []⟩

/-- An arm and a disarm at the same time, saved in the order of their swaps. -/
def savedInOrderTrace : List Act :=
  [.call (.armWithSound "builtin:horn" (some 3000)), .call .disarm, .swap 0, .swap 1,
    .openDb 1 .none, .save 0 .none, .save 1 .none, .ret 1, .ret 0]

theorem agrees_of_savedInOrder_arm_disarm :
    ∃ p, Machine.Run (Machine.track step Order.next) SavedInOrder (fresh, Order.start) savedInOrderTrace p ∧
      p.1.daemon.Agrees := by
  obtain ⟨⟨s, o⟩, hrun, hret⟩ : ∃ p, Machine.Run (Machine.track step Order.next) SavedInOrder
      (fresh, Order.start) savedInOrderTrace p ∧ AllReturned p.1 :=
    Machine.Run.exists_of_execIf (by decide)
  exact ⟨(s, o), hrun, agrees_of_savedInOrder (by decide) hrun hret⟩

/-- The same two calls, with the save of the arm run last: memory is disarmed, and a restart
finds the alarm armed. -/
theorem stale_save_wins :
    ∃ s, step.exec fresh
        [.call (.armWithSound "builtin:horn" (some 3000)), .call .disarm, .swap 0, .swap 1,
          .save 1 .none, .save 0 .none, .ret 0, .ret 1] = some s ∧
      fresh.daemon.Agrees ∧ AllReturned s ∧ s.daemon.inner = .disarmed ∧
      s.daemon.persistence.stored = .ok ⟨true, some 3000, some "builtin:horn"⟩ ∧ ¬ s.daemon.Agrees :=
  ⟨_, rfl, by decide, by decide, rfl, by decide, by decide⟩

/-! ### Crashes -/

/-- The steps of a sequential run: a call is made when the others have returned, for a sound id
that fits, and saves that run to their end succeed. The process may crash anywhere. -/
def OneAtATime (p : Sys × State) : Act → Prop
  | .call c => AllReturned p.1 ∧ c.desired.toPersisted.Fits
  | .save _ f => f = .none
  | _ => True

instance (p : Sys × State) : (act : Act) → Decidable (OneAtATime p act)
  | .call c => inferInstanceAs (Decidable (AllReturned p.1 ∧ c.desired.toPersisted.Fits))
  | .save _ f => inferInstanceAs (Decidable (f = .none))
  | .restart _ | .swap _ | .openDb _ _ | .ret _ => .isTrue trivial

/-- The state after the last call that returned, or with which the process was last started. -/
def settledNext (settled : State) (s : Sys) (act : Act) (t : Sys) : State :=
  match act with
  | .ret i => (s.calls[i]?.map Thread.desired).getD settled
  | .restart _ => t.daemon.inner
  | _ => settled

/-- What a call that stands at `pc` knows of memory and disk. -/
def Thread.Consistent (d : AlarmDaemon) (settled : State) (th : Thread) : Prop :=
  match th.pc with
  | .lock => d.Agrees ∧ settled = d.inner ∧ th.desired.toPersisted.Fits
  | .queued snapshot _ => d.inner = th.desired ∧ snapshot = th.desired.toPersisted ∧
      d.persistence.stored = .ok settled.toPersisted ∧ th.desired.toPersisted.Fits
  | .joined _ => d.inner = th.desired ∧ d.Agrees
  | .returned _ => True

/-- What holds of memory and disk in a sequential run. -/
structure Consistent (s : Sys) (settled : State) : Prop where
  /-- At most one call is in progress. -/
  single : Pool.AtMostOne (fun th : Thread => th.pc.isReturned = false) s.calls
  /-- When none is, memory and disk are the settled state. -/
  idle : AllReturned s → s.daemon.Agrees ∧ settled = s.daemon.inner
  /-- When one is, it is where it stands that says what they are. -/
  busy : ∀ th ∈ s.calls, th.Consistent s.daemon settled

theorem Thread.Consistent.of_stored {d : AlarmDaemon} {settled : State} {th : Thread}
    (h : th.Consistent d settled) {p : Persistence} (hp : p.stored = d.persistence.stored) :
    th.Consistent { d with persistence := p } settled := by
  obtain ⟨desired, pc⟩ := th
  cases pc with
  | lock => exact ⟨hp.trans h.1, h.2⟩
  | queued snapshot r => exact ⟨h.1, h.2.1, hp.trans h.2.2.1, h.2.2.2⟩
  | joined r => exact ⟨h.1, hp.trans h.2⟩
  | returned r => trivial

/-- The call in progress moves: it is enough to say what it knows afterwards. -/
theorem Consistent.move {settled settled' : State} (h : Consistent s settled) {d : AlarmDaemon} {th : Thread}
    {pc : Pc} (hi : s.calls[i]? = some th) (hn : th.pc.isReturned = false)
    (hc : Thread.Consistent d settled' ⟨th.desired, pc⟩)
    (hret : pc.isReturned = true → d.Agrees ∧ settled' = d.inner) :
    Consistent ⟨d, s.calls.set i ⟨th.desired, pc⟩⟩ settled' where
  single := h.single.set hi hn
  idle := fun hall => hret (hall _ (List.mem_of_getElem? (Pool.set_self hi)))
  busy := by
    -- every other call has returned
    apply h.single.forall_set hi hn hc
    intro th' _ hr
    obtain ⟨desired, pc'⟩ := th'
    cases pc' with
    | returned r => trivial
    | lock => exact absurd rfl hr
    | queued p r => exact absurd rfl hr
    | joined r => exact absurd rfl hr

theorem Consistent.step (p : Sys × State) (act : Act) (q : Sys × State) (h : Consistent p.1 p.2)
    (hok : OneAtATime p act) (hstep : Machine.track Clones.step settledNext p act = some q) :
    Consistent q.1 q.2 := by
  obtain ⟨s, settled⟩ := p
  obtain ⟨t, settled'⟩ := q
  obtain ⟨hs, hh⟩ := Machine.track_eq_some_iff.mp hstep
  simp only at h hs hh ⊢
  subst hh
  cases act with
  | call c =>
    obtain rfl := step_call.mp hs
    obtain ⟨hall, hfits⟩ := hok
    refine ⟨.add fun th hm => ?_, ?_, Pool.forall_add h.busy ⟨(h.idle hall).1, (h.idle hall).2, hfits⟩⟩
    · simp [hall th hm]
    · intro hall'
      have := hall' _ (List.mem_of_getElem? Pool.add_self)
      cases this
  | swap i =>
    obtain ⟨desired, hi, ⟨hd, rfl⟩ | ⟨hd, rfl⟩⟩ := step_swap hs
    · obtain ⟨ha, -, -⟩ := h.busy _ (List.mem_of_getElem? hi)
      exact h.move hi rfl ⟨hd, ha⟩ (by simp [Pc.isReturned])
    · obtain ⟨ha, he, hfits⟩ := h.busy _ (List.mem_of_getElem? hi)
      have hstored : s.daemon.persistence.stored = .ok settled.toPersisted := he ▸ ha
      exact h.move hi rfl ⟨rfl, rfl, hstored, hfits⟩ (by simp [Pc.isReturned])
  | openDb i f =>
    obtain rfl := step_openDb hs
    have hp := Persistence.stored_lockDb f s.daemon.persistence
    refine ⟨h.single, fun hall => ?_, fun th hm => (h.busy th hm).of_stored hp⟩
    exact ⟨hp.trans (h.idle hall).1, (h.idle hall).2⟩
  | save i f =>
    obtain ⟨desired, snapshot, r, hi, rfl⟩ := step_save hs
    obtain rfl : f = .none := hok
    obtain ⟨hd, hsnap, -, hfits⟩ := h.busy _ (List.mem_of_getElem? hi)
    refine h.move hi rfl ⟨hd, ?_⟩ (by simp [Pc.isReturned])
    rw [AlarmDaemon.Agrees, Persistence.stored_save_none, hd, hsnap]
    exact decodeState_encodeState hfits
  | ret i =>
    obtain ⟨desired, r, hi, rfl⟩ := step_ret hs
    obtain ⟨hd, ha⟩ := h.busy _ (List.mem_of_getElem? hi)
    refine h.move hi rfl trivial fun _ => ⟨ha, ?_⟩
    rw [settledNext, hi, hd]
    rfl
  | restart now =>
    obtain ⟨hc, ha, -⟩ := step_restart hs
    refine ⟨by rw [hc]; exact Pool.atMostOne_nil, fun _ => ⟨ha, rfl⟩, by simp [hc]⟩

/-- Whenever the process crashes in a sequential run, before or after any step of a call and
after any number of crashes, a restart succeeds, and the state it starts with is the settled
one or, whole, the one asked for by the call in progress. -/
theorem restart_is_settled_or_requested {as : List Act} {s : Sys} {settled : State}
    (h : Machine.Run (Machine.track step settledNext) OneAtATime (fresh, .disarmed) as (s, settled))
    (now : WallClock) :
    ∃ d r, AlarmDaemon.newPersistent .none now s.daemon.persistence.crashed = .ok (d, r) ∧
      (d.inner = settled ∨ ∃ th ∈ s.calls, th.pc.isReturned = false ∧ d.inner = th.desired) := by
  have hinit : Consistent fresh .disarmed :=
    ⟨Pool.atMostOne_nil, fun _ => ⟨rfl, rfl⟩, by simp [fresh]⟩
  have hinv : Consistent s settled :=
    h.invariant (I := fun p => Consistent p.1 p.2) Consistent.step hinit
  by_cases hall : AllReturned s
  · obtain ⟨ha, rfl⟩ := hinv.idle hall
    obtain ⟨d, r, hn, hd⟩ := newPersistent_of_stored now ha
    exact ⟨d, r, hn, .inl hd⟩
  · -- the call in progress knows what is on disk
    obtain ⟨th, hm, hn⟩ : ∃ th ∈ s.calls, th.pc.isReturned = false := by
      simpa [AllReturned] using hall
    have hb := hinv.busy th hm
    obtain ⟨desired, pc⟩ := th
    cases pc with
    | lock =>
      obtain ⟨ha, rfl, -⟩ := hb
      obtain ⟨d, r, hnp, hd⟩ := newPersistent_of_stored now ha
      exact ⟨d, r, hnp, .inl hd⟩
    | queued snapshot r =>
      obtain ⟨d, r, hnp, hd⟩ := newPersistent_of_stored now hb.2.2.1
      exact ⟨d, r, hnp, .inl hd⟩
    | joined r =>
      obtain ⟨d, r, hnp, hd⟩ := newPersistent_of_stored now hb.2
      exact ⟨d, r, hnp, .inr ⟨_, hm, hn, hd.trans hb.1⟩⟩
    | returned r => cases hn

/-- A disarm that is not saved yet when the process crashes. -/
def crashMidDisarm : List Act :=
  [.call (.armWithSound "builtin:horn" (some 3000)), .swap 0, .openDb 0 .none, .save 0 .none, .ret 0,
    .call .disarm, .swap 1]

/-- A crash between the swap and the commit of a disarm: the restart finds the alarm armed, as
the arm that had returned left it. -/
theorem restart_is_settled_or_requested_mid_disarm :
    ∃ p, Machine.Run (Machine.track step settledNext) OneAtATime (fresh, .disarmed) crashMidDisarm p ∧
      p.2 = .armed (some "builtin:horn") (some 3000) ∧
      ∃ d r, AlarmDaemon.newPersistent .none ⟨0, by decide⟩ p.1.daemon.persistence.crashed = .ok (d, r) ∧
        (d.inner = p.2 ∨ ∃ th ∈ p.1.calls, th.pc.isReturned = false ∧ d.inner = th.desired) := by
  obtain ⟨⟨s, settled⟩, hrun, hset⟩ : ∃ p, Machine.Run (Machine.track step settledNext) OneAtATime
      (fresh, .disarmed) crashMidDisarm p ∧ p.2 = .armed (some "builtin:horn") (some 3000) :=
    Machine.Run.exists_of_execIf (by decide)
  exact ⟨(s, settled), hrun, hset, restart_is_settled_or_requested hrun _⟩

end HelmAlarm.Daemon.Clones
