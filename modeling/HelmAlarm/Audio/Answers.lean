import HelmAlarm.Audio.Commands
import HelmAlarm.Audio.DeviceLoss

/-!
# What a Play is answered

A Play is accepted or refused when the worker handles it, and its caller learns of it
only afterwards, if it still waits. A caller that was told `DeviceUnavailable` has been
told the truth. A caller that gave up has not been told anything: its command stays in
the channel, and the worker accepts it when it comes to it with a stream open. So a
`play` that returned an error may still sound, `late_play_sounds`; it never does in the
runs in which no caller gives up too early, and in no others: `failed_play_iff`.

What the worker looks at is whether it holds a stream. Whether the stream is flagged
as lost it looks at before it waits for a command, and a stream that reports in between
is played on: `lost_device_accepts`. `play_answers_iff` says for which runs the answers
are right, and `agreed_of_quiet` when that is so.
-/

namespace HelmAlarm.Audio.CpalAudio

open HelmAlarm.Library

variable {cfg : CpalConfig} {p q : Player} {act : Act} {acts : List Act} {host : AudioHost} {i : ℕ}

/-- The command `i` is a Play. -/
def Player.plays (p : Player) (i : ℕ) : Bool :=
  match p.sent[i]? with
  | some (.play _ _) => true
  | _ => false

theorem Player.plays_iff : p.plays i = true ↔ ∃ sound profile, p.sent[i]? = some (.play sound profile) := by
  unfold plays
  split
  · rename_i sound profile hi
    exact ⟨fun _ => ⟨sound, profile, hi⟩, fun _ => rfl⟩
  · rename_i hne
    constructor
    · rintro ⟨⟩
    · intro h
      obtain ⟨sound, profile, hi⟩ := h
      exact absurd hi (hne sound profile)

/-! ### Steps that answer -/

/-- A step either handles a command, and makes its answer of it, or leaves the answers as they are. -/
theorem Stepped.answers (h : Stepped p act q) :
    q.results = p.results ∨ ∃ i command host, act = .work host ∧ p.pc = .handle i ∧ p.sent[i]? = some command ∧
      q.sent = p.sent ∧ q.callers = p.callers ∧ q.shared = (p.handle command).2 ∧
      q.results = p.results ++ [(p.handle command).1] ∧ q.pc = .ack i (p.handle command).1 := by
  cases h with
  | @worked host q hw =>
    cases hw with
    | @handled i command hpc hi => exact .inr ⟨i, command, host, rfl, hpc, hi, rfl, rfl, rfl, rfl, rfl⟩
    | _ => exact .inl rfl
  | _ => exact .inl rfl

/-- A step of the worker either tells a caller, or leaves the callers as they are. -/
theorem Worked.tells (hw : Worked host p q) :
    (∃ i result, p.pc = .ack i result ∧ q.sent = p.sent ∧ q.results = p.results ∧
      q.callers = p.callers.modify i fun caller => { caller with ack := some result }) ∨
    (∀ i result, p.pc ≠ .ack i result) ∧ q.sent = p.sent ∧ q.callers = p.callers := by
  cases hw with
  | @acked i result hpc => exact .inl ⟨i, result, hpc, rfl, rfl, rfl⟩
  | moved hm => exact .inr ⟨by cases hm <;> simp [*], rfl, rfl⟩
  | timed hpc => exact .inr ⟨by rcases hpc with hpc | hpc <;> simp [hpc], rfl, rfl⟩
  | built hpc hb => exact .inr ⟨by rcases hpc with ⟨hpc, -⟩ | ⟨hpc, -⟩ <;> simp [hpc], rfl, rfl⟩
  | dropped hpc => exact .inr ⟨by rcases hpc with ⟨hpc, -⟩ | ⟨hpc, -⟩ <;> simp [hpc], rfl, rfl⟩
  | _ => exact .inr ⟨by simp [*], rfl, rfl⟩

/-- What a call has returned was returned before, or is returned in this step: its caller was told it,
or gives up. -/
theorem Stepped.replied {caller : Caller} {result : Except AudioError Unit} (h : Stepped p act q)
    (hi : q.callers[i]? = some caller) (hr : caller.reply = some result) :
    (∃ caller', p.callers[i]? = some caller' ∧ caller'.reply = some result) ∨
    (∃ since, p.callers[i]? = some ⟨since, some result, none⟩) ∨
    act = .giveUp i ∧ result = .error .workerUnavailable ∧ ∃ since, p.callers[i]? = some ⟨since, none, none⟩ := by
  cases h with
  | called command hopen =>
    rcases Pool.of_add hi with ⟨-, rfl⟩ | hi
    · cases hr
    · exact .inl ⟨caller, hi, hr⟩
  | received hj =>
    rcases Pool.of_set hi with ⟨rfl, rfl⟩ | ⟨-, hi⟩
    · obtain rfl := Option.some.inj hr
      exact .inr (.inl ⟨_, hj⟩)
    · exact .inl ⟨caller, hi, hr⟩
  | gaveUp hj hle =>
    rcases Pool.of_set hi with ⟨rfl, rfl⟩ | ⟨-, hi⟩
    · obtain rfl := Option.some.inj hr
      exact .inr (.inr ⟨rfl, rfl, _, hj⟩)
    · exact .inl ⟨caller, hi, hr⟩
  | worked hw =>
    rcases hw.tells with ⟨j, told, -, -, -, hcallers⟩ | ⟨-, -, hcallers⟩
    · rw [hcallers, List.getElem?_modify] at hi
      obtain ⟨caller', hi', rfl⟩ := Option.map_eq_some_iff.mp hi
      refine .inl ⟨caller', hi', ?_⟩
      by_cases hji : j = i
      · simpa [hji] using hr
      · simpa [hji] using hr
    · rw [hcallers] at hi
      exact .inl ⟨caller, hi, hr⟩
  | _ => exact .inl ⟨caller, hi, hr⟩

/-- What a call has returned it has returned for good. -/
theorem Stepped.reply_kept {caller : Caller} {result : Except AudioError Unit} (h : Stepped p act q)
    (hi : p.callers[i]? = some caller) (hr : caller.reply = some result) :
    ∃ caller', q.callers[i]? = some caller' ∧ caller'.reply = some result := by
  cases h with
  | called command hopen => exact ⟨caller, Pool.add_of_some hi, hr⟩
  | @received j _ _ hj =>
    by_cases hij : i = j
    · subst hij
      obtain rfl := Option.some.inj (hi.symm.trans hj)
      cases hr
    · exact ⟨caller, by rw [← hi]; exact Pool.set_of_ne hij, hr⟩
  | @gaveUp j _ hj hle =>
    by_cases hij : i = j
    · subst hij
      obtain rfl := Option.some.inj (hi.symm.trans hj)
      cases hr
    · exact ⟨caller, by rw [← hi]; exact Pool.set_of_ne hij, hr⟩
  | worked hw =>
    rcases hw.tells with ⟨j, told, -, -, -, hcallers⟩ | ⟨-, -, hcallers⟩
    · rw [hcallers, List.getElem?_modify, hi]
      by_cases hji : j = i
      · exact ⟨_, rfl, by simpa [hji] using hr⟩
      · exact ⟨_, rfl, by simpa [hji] using hr⟩
    · exact ⟨caller, by rw [hcallers, hi], hr⟩
  | _ => exact ⟨caller, hi, hr⟩

/-! ### Callers that are told -/

/-- Every caller whose command was handled is told of it, before the worker does anything else. -/
structure Prompt (p : Player) : Prop where
  /-- Every command has a caller. -/
  counted : p.callers.length = p.sent.length
  /-- What was made of a command its caller was told, or is told next. -/
  acked : ∀ (i : ℕ) result (caller : Caller), p.results[i]? = some result → p.callers[i]? = some caller →
    caller.ack = some result ∨ p.pc = .ack i result
  /-- A caller returns what it was told, unless it gave up. -/
  replied : ∀ (i : ℕ) (caller : Caller) result, p.callers[i]? = some caller → caller.reply = some result →
    caller.ack = some result ∨ result = .error .workerUnavailable

theorem prompt_spawn (cfg : CpalConfig) : Prompt (spawn cfg) where
  counted := rfl
  acked := by rintro i result caller ⟨⟩
  replied := by rintro i caller result ⟨⟩

/-- A caller returns. -/
theorem Prompt.returned {since : ℕ} {ack reply : Option (Except AudioError Unit)} {result : Except AudioError Unit}
    (hI : Prompt p) (hi : p.callers[i]? = some ⟨since, ack, reply⟩)
    (hr : ack = some result ∨ result = .error .workerUnavailable) :
    Prompt { p with callers := p.callers.set i ⟨since, ack, some result⟩ } := by
  refine ⟨by simp [hI.counted], ?_, ?_⟩
  · intro j result' caller hresult hj
    rcases Pool.of_set hj with ⟨rfl, rfl⟩ | ⟨-, hj⟩
    · have hacked := hI.acked _ result' _ hresult hi
      exact hacked
    · exact hI.acked j result' caller hresult hj
  · intro j caller result' hj hreply
    rcases Pool.of_set hj with ⟨rfl, rfl⟩ | ⟨-, hj⟩
    · obtain rfl := Option.some.inj hreply
      exact hr
    · exact hI.replied j caller result' hj hreply

/-- The worker tells a caller. -/
theorem Prompt.told {result : Except AudioError Unit} (hI : Prompt p) (hord : Ordered p) (hpc : p.pc = .ack i result)
    (hsent : q.sent = p.sent) (hresults : q.results = p.results)
    (hcallers : q.callers = p.callers.modify i fun caller => { caller with ack := some result }) : Prompt q := by
  have hmodify : ∀ j caller, q.callers[j]? = some caller → ∃ caller', p.callers[j]? = some caller' ∧
      caller = if i = j then { caller' with ack := some result } else caller' := by
    intro j caller hj
    rw [hcallers, List.getElem?_modify] at hj
    obtain ⟨caller', hj', rfl⟩ := Option.map_eq_some_iff.mp hj
    exact ⟨caller', hj', rfl⟩
  refine ⟨by rw [hcallers, hsent, List.length_modify, hI.counted], ?_, ?_⟩
  · intro j result' caller hr hj
    rw [hresults] at hr
    obtain ⟨caller', hj', rfl⟩ := hmodify j caller hj
    by_cases hij : i = j
    · subst hij
      rw [hord.telling i result hpc] at hr
      rw [if_pos rfl]
      exact .inl hr
    · rw [if_neg hij]
      rcases hI.acked j result' caller' hr hj' with hack | hack
      · exact .inl hack
      · cases hpc.symm.trans hack
        exact absurd rfl hij
  · intro j caller result' hj hr
    obtain ⟨caller', hj', rfl⟩ := hmodify j caller hj
    by_cases hij : i = j
    · subst hij
      rw [if_pos rfl] at hr ⊢
      rcases hI.replied i caller' result' hj' hr with hack | hgave
      · have htold := (hord.told i caller' hj').ack _ hack
        rw [hord.telling i result hpc] at htold
        exact .inl htold
      · exact .inr hgave
    · rw [if_neg hij] at hr ⊢
      exact hI.replied j caller' result' hj' hr

theorem Prompt.worked (hI : Prompt p) (hord : Ordered p) (hw : Worked host p q) : Prompt q := by
  rcases hw.tells with ⟨i, result, hpc, hsent, hresults, hcallers⟩ | ⟨hne, hsent, hcallers⟩
  · exact hI.told hord hpc hsent hresults hcallers
  · refine ⟨by rw [hcallers, hsent, hI.counted], ?_, by rw [hcallers]; exact hI.replied⟩
    have hold : ∀ (j : ℕ) result (caller : Caller), p.results[j]? = some result → p.callers[j]? = some caller →
        caller.ack = some result := by
      intro j result caller hr hj
      exact (hI.acked j result caller hr hj).resolve_right (hne j result)
    intro j result caller hr hj
    rw [hcallers] at hj
    rcases (Stepped.worked hw).answers with hresults | ⟨i, command, host, -, hpc, -, -, -, -, hresults, hpc'⟩
    · rw [hresults] at hr
      exact .inl (hold j result caller hr hj)
    · rw [hresults] at hr
      rcases Pool.of_add hr with ⟨rfl, rfl⟩ | hr
      · rw [hpc', hord.next i hpc]
        exact .inr rfl
      · exact .inl (hold j result caller hr hj)

/-- A command that is sent was not handled yet. -/
theorem Prompt.called (hI : Prompt p) (hord : Ordered p) (command : PlayerCommand) :
    Prompt { p with sent := p.sent ++ [command], callers := p.callers ++ [{ since := p.now }] } := by
  refine ⟨by simp [hI.counted], ?_, ?_⟩
  · intro i result caller hr hi
    rcases Pool.of_add hi with ⟨rfl, -⟩ | hi
    · have hlt : p.callers.length < p.results.length := (List.getElem?_eq_some_iff.mp hr).1
      have hle := hord.taken
      rw [hord.handled, ← hI.counted] at hle
      omega
    · exact hI.acked i result caller hr hi
  · intro i caller result hi hr
    rcases Pool.of_add hi with ⟨-, rfl⟩ | hi
    · cases hr
    · exact hI.replied i caller result hi hr

theorem Prompt.step (hI : Prompt p) (hord : Ordered p) (hs : step p act = some q) : Prompt q := by
  cases stepped_of_step hs with
  | called command hopen => exact hI.called hord command
  | received hj => exact hI.returned hj (.inl rfl)
  | gaveUp hj hle => exact hI.returned hj (.inr rfl)
  | worked hw => exact hI.worked hord hw
  | closed hopen hall => exact ⟨hI.counted, hI.acked, hI.replied⟩
  | reported hstream => exact ⟨hI.counted, hI.acked, hI.replied⟩
  | rendered n hstream => exact ⟨hI.counted, hI.acked, hI.replied⟩
  | ticked ms => exact ⟨hI.counted, hI.acked, hI.replied⟩

/-! ### Sounds that are installed -/

/-- In the step from `p` to `q` the worker handles the Play `i`, and installs its sound. -/
def Installs (i : ℕ) (p : Player) (act : Act) (q : Player) : Prop :=
  (∃ host, act = .work host) ∧ p.pc = .handle i ∧ ∃ sound profile, p.sent[i]? = some (.play sound profile) ∧
    p.handle (.play sound profile) = (.ok (), q.shared) ∧
    q.shared.playback = some { sound := sound, profile := profile }

/-- The sound of the Play `i` is installed in a step of the run by `acts`. -/
def Installed (cfg : CpalConfig) (acts : List Act) (i : ℕ) : Prop :=
  ∃ p act q, step.Passes (spawn cfg) acts p act q ∧ Installs i p act q

/-- The Play `i` was accepted. -/
def Accepted (p : Player) (i : ℕ) : Prop := p.plays i = true ∧ p.results[i]? = some (.ok ())

theorem Stepped.plays_kept (h : Stepped p act q) (hi : p.plays i = true) : q.plays i = true := by
  obtain ⟨sound, profile, hsent⟩ := Player.plays_iff.mp hi
  exact Player.plays_iff.mpr ⟨sound, profile, (h.kept i).1 _ hsent⟩

theorem Accepted.kept (ha : Accepted p i) (h : Stepped p act q) : Accepted q i :=
  ⟨h.plays_kept ha.1, (h.kept i).2 _ ha.2⟩

/-- What the worker does with a command it holds. -/
theorem step_handle {command : PlayerCommand} (hpc : p.pc = .handle i) (hi : p.sent[i]? = some command) :
    step p (.work host) = some { p with
      shared := (p.handle command).2
      results := p.results ++ [(p.handle command).1]
      pc := .ack i (p.handle command).1 } := by
  simp only [step, Player.work, hpc, hi, Option.map_some]

/-- A Play that is handled with a stream open is installed. -/
theorem installs_of_open (hs : step p (.work host) = some q) (hpc : p.pc = .handle i) (hplays : p.plays i = true)
    (hopen : p.stream.isSome = true) : Installs i p (.work host) q := by
  obtain ⟨sound, profile, hsent⟩ := Player.plays_iff.mp hplays
  have hhandle : p.handle (.play sound profile) =
      (.ok (), { p.shared with playback := some { sound := sound, profile := profile } }) := by
    simp only [Player.handle, handlePlay, if_pos hopen]
  rw [step_handle hpc hsent, hhandle] at hs
  obtain rfl := Option.some.inj hs
  exact ⟨⟨host, rfl⟩, hpc, sound, profile, hsent, hhandle, rfl⟩

/-- A Play that is installed was accepted, and had a stream. -/
theorem Installs.accepted (h : Installs i p act q) (hord : Ordered p) (hs : step p act = some q) :
    p.stream.isSome = true ∧ Accepted q i := by
  obtain ⟨⟨host, rfl⟩, hpc, sound, profile, hsent, hhandle, -⟩ := h
  have hq := Option.some.inj ((step_handle hpc hsent).symm.trans hs)
  have hsent' : q.sent[i]? = some (.play sound profile) := by rw [← hq, hsent]
  have hresults : q.results = p.results ++ [.ok ()] := by rw [← hq, hhandle]
  refine ⟨?_, Player.plays_iff.mpr ⟨sound, profile, hsent'⟩, ?_⟩
  · by_contra hclosed
    simp only [Player.handle, handlePlay, if_neg hclosed] at hhandle
    cases congrArg Prod.fst hhandle
  · rw [hresults, hord.next i hpc]
    exact Pool.add_self

/-- A Play that was accepted was so before the step, or is installed in it. -/
theorem Stepped.accepted (h : Stepped p act q) (hord : Ordered p) (ha : Accepted q i) :
    Accepted p i ∨ Installs i p act q := by
  obtain ⟨hplays, hresult⟩ := ha
  obtain ⟨sound, profile, hsent⟩ := Player.plays_iff.mp hplays
  have hle := hord.taken
  rw [hord.handled] at hle
  rcases h.answers with hresults | ⟨j, command, host, rfl, hpc, hj, hsent', -, hshared, hresults, -⟩
  · rw [hresults] at hresult
    have hlt := (List.getElem?_eq_some_iff.mp hresult).1
    -- what has an answer was sent before the step
    cases hp : p.sent[i]? with
    | none =>
      have := List.getElem?_eq_none_iff.mp hp
      omega
    | some command =>
      obtain rfl := Option.some.inj (hsent.symm.trans ((h.kept i).1 _ hp))
      exact .inl ⟨Player.plays_iff.mpr ⟨sound, profile, hp⟩, hresult⟩
  · rw [hsent'] at hsent
    rw [hresults] at hresult
    rcases Pool.of_add hresult with ⟨rfl, hok⟩ | hresult
    · obtain rfl := hord.next j hpc
      obtain rfl := Option.some.inj (hj.symm.trans hsent)
      right
      rcases p.handle_cases (.play sound profile) with ⟨_, _, heq, -, hh⟩ | ⟨_, _, -, -, hh⟩ | ⟨heq, -⟩
      · cases heq
        refine ⟨⟨host, rfl⟩, hpc, sound, profile, hsent, ?_, ?_⟩
        · rw [hshared, hh]
        · rw [hshared, hh]
      · rw [hh] at hok
        cases hok
      · cases heq
    · exact .inl ⟨Player.plays_iff.mpr ⟨sound, profile, hsent⟩, hresult⟩

/-- The Plays that were accepted are those whose sounds were installed. -/
theorem accepted_iff_installed (hrun : Machine.Run step Machine.anyStep (spawn cfg) acts p) :
    Accepted p i ↔ Installed cfg acts i := by
  constructor
  · intro ha
    have hrun' : step.exec (spawn cfg) acts = some p ∧ (Accepted p i → Installed cfg acts i) := by
      refine hrun.invariant_trace
        (P := fun as p => step.exec (spawn cfg) as = some p ∧ (Accepted p i → Installed cfg as i))
        ⟨rfl, fun h => absurd h.2 (by rintro ⟨⟩)⟩ ?_
      intro as r act s h _ hs
      obtain ⟨hexec, ih⟩ := h
      have hr := Machine.exec_eq_some_iff.mp hexec
      refine ⟨(hr.snoc trivial hs).exec, fun h => ?_⟩
      rcases (stepped_of_step hs).accepted (ordered_of_run hr) h with h | h
      · obtain ⟨r', act', s', hp, hi⟩ := ih h
        exact ⟨r', act', s', hp.append _, hi⟩
      · exact ⟨r, act, s, hr.passes_last hs, h⟩
    exact hrun'.2 ha
  · rintro ⟨r, act, s, hp, hi⟩
    obtain ⟨as, bs, rfl, hr, -, hs, hbs⟩ := hp.cut hrun
    have hacc := (hi.accepted (ordered_of_run hr) hs).2
    exact hbs.invariant (I := fun p => Accepted p i) (fun _ _ _ h _ hs => h.kept (stepped_of_step hs)) hacc

/-! ### Calls that fail -/

/-- The Play `i` has returned an error. -/
def Failed (p : Player) (i : ℕ) : Prop :=
  p.plays i = true ∧ ∃ caller e, p.callers[i]? = some caller ∧ caller.reply = some (.error e)

/-- No caller gives up on a Play that was accepted and is to be acked, and when a Play is handled with
a stream open its caller still waits. -/
def Timely (p : Player) : Act → Prop
  | .giveUp i => p.plays i = true → p.pc ≠ .ack i (.ok ())
  | .work _ =>
    match p.pc with
    | .handle i => p.plays i = true → p.stream.isSome = true → p.callers[i]?.bind Caller.reply = none
    | _ => True
  | _ => True

/-- What holds of the command that the worker holds, if it holds one, can be decided. -/
def Pc.decidableHandle (P : ℕ → Prop) [DecidablePred P] :
    (pc : Pc) → Decidable (match pc with | .handle i => P i | _ => True)
  | .handle i => inferInstanceAs (Decidable (P i))
  | .init | .initFailed | .start | .check | .drop | .recv _ | .ack _ _ | .retry | .build | .clear | .retried | .exit
  | .exited => .isTrue trivial

instance (p : Player) : (act : Act) → Decidable (Timely p act)
  | .giveUp i => inferInstanceAs (Decidable (p.plays i = true → p.pc ≠ .ack i (.ok ())))
  | .work _ => Pc.decidableHandle
    (fun i => p.plays i = true → p.stream.isSome = true → p.callers[i]?.bind Caller.reply = none) p.pc
  | .call _ | .receive _ | .close | .report | .render _ | .tick _ => .isTrue trivial

theorem Failed.kept (hf : Failed p i) (h : Stepped p act q) : Failed q i := by
  obtain ⟨hplays, caller, e, hi, hr⟩ := hf
  obtain ⟨caller', hi', hr'⟩ := h.reply_kept hi hr
  exact ⟨h.plays_kept hplays, caller', e, hi', hr'⟩

/-- In a timely step no Play both fails and is accepted. -/
theorem failed_step (hord : Ordered p) (hprompt : Prompt p) (hI : ∀ i, Failed p i → ¬ Accepted p i)
    (hok : Timely p act) (hs : step p act = some q) : ∀ i, Failed q i → ¬ Accepted q i := by
  intro i hf ha
  obtain ⟨-, caller, e, hi, hr⟩ := hf
  have hst := stepped_of_step hs
  rcases hst.accepted hord ha with ha | hinst
  · -- it was accepted before, so it fails in this step
    rcases hst.replied hi hr with ⟨caller', hi', hr'⟩ | ⟨since, hi'⟩ | ⟨rfl, -, since, hi'⟩
    · exact hI i ⟨ha.1, caller', e, hi', hr'⟩ ha
    · have htold := (hord.told i _ hi').ack _ rfl
      cases htold.symm.trans ha.2
    · rcases hprompt.acked i _ _ ha.2 hi' with hack | hpc
      · cases hack
      · exact hok ha.1 hpc
  · -- it is accepted in this step, so it failed before
    obtain ⟨⟨host, rfl⟩, hpc, sound, profile, hsent, -⟩ := id hinst
    have hopen := (hinst.accepted hord hs).1
    rcases hst.replied hi hr with ⟨caller', hi', hr'⟩ | ⟨since, hi'⟩ | ⟨hact, -⟩
    · simp only [Timely, hpc] at hok
      have hnone := hok (Player.plays_iff.mpr ⟨sound, profile, hsent⟩) hopen
      rw [hi'] at hnone
      cases hr'.symm.trans hnone
    · have htold := (hord.told i _ hi').ack _ rfl
      have hlt := (List.getElem?_eq_some_iff.mp htold).1
      rw [hord.next i hpc] at hlt
      exact absurd hlt (lt_irrefl _)
    · cases hact

theorem prompt_of_run (hrun : Machine.Run step Machine.anyStep (spawn cfg) acts p) : Prompt p := by
  have hboth : Ordered p ∧ Prompt p :=
    hrun.invariant (I := fun p => Ordered p ∧ Prompt p)
      (fun _ _ _ h _ hs => ⟨h.1.step hs, h.2.step h.1 hs⟩) ⟨ordered_spawn cfg, prompt_spawn cfg⟩
  exact hboth.2

/-- In a timely run no Play that failed is accepted. -/
theorem failed_of_timely (hrun : Machine.Run step Timely (spawn cfg) acts p) : ∀ i, Failed p i → ¬ Accepted p i := by
  have hall : (Ordered p ∧ Prompt p) ∧ ∀ i, Failed p i → ¬ Accepted p i := by
    refine hrun.invariant (I := fun p => (Ordered p ∧ Prompt p) ∧ ∀ i, Failed p i → ¬ Accepted p i) ?_
      ⟨⟨ordered_spawn cfg, prompt_spawn cfg⟩, fun i _ ha => by cases ha.2⟩
    intro r act s h hok hs
    obtain ⟨⟨hord, hprompt⟩, hI⟩ := h
    exact ⟨⟨hord.step hs, hprompt.step hord hs⟩, failed_step hord hprompt hI hok hs⟩
  exact hall.2

/-- A step that is not timely is one after which a Play has failed and was accepted. -/
theorem failed_of_not_timely (hord : Ordered p) (hok : ¬ Timely p act) (hs : step p act = some q) :
    ∃ i, Failed q i ∧ Accepted q i := by
  have hst := stepped_of_step hs
  cases act with
  | giveUp i =>
    simp only [Timely, Classical.not_imp, not_not] at hok
    obtain ⟨hplays, hpc⟩ := hok
    have hacc : Accepted p i := ⟨hplays, hord.telling i _ hpc⟩
    refine ⟨i, ⟨hst.plays_kept hplays, ?_⟩, hacc.kept hst⟩
    cases hst with
    | gaveUp hi hle => exact ⟨_, _, Pool.set_self hi, rfl⟩
  | work host =>
    cases hpc : p.pc with
    | handle i =>
      simp only [Timely, hpc, Classical.not_imp] at hok
      obtain ⟨hplays, hopen, hreply⟩ := hok
      obtain ⟨result, hr⟩ := Option.ne_none_iff_exists'.mp hreply
      obtain ⟨caller, hi, hr⟩ := Option.bind_eq_some_iff.mp hr
      refine ⟨i, Failed.kept ⟨hplays, caller, ?_⟩ hst, ((installs_of_open hs hpc hplays hopen).accepted hord hs).2⟩
      cases result with
      | error e => exact ⟨e, hi, hr⟩
      | ok =>
        -- a caller that returned ok has been told so, and its command was handled
        have htold := hord.told i caller hi
        have hlt := (List.getElem?_eq_some_iff.mp (htold.ack _ (htold.reply hr))).1
        rw [hord.next i hpc] at hlt
        exact absurd hlt (lt_irrefl _)
    | _ => exact absurd (by simp [Timely, hpc]) hok
  | _ => exact absurd trivial hok

/-- For every run of any number of callers, the worker and the callbacks: no `play` that returned an
error has its sound installed, before or after the return, if and only if no caller gave up on a Play
that was accepted and was to be acked, and whenever a Play was handled with a stream open its caller
still waited. -/
theorem failed_play_iff (hrun : Machine.Run step Machine.anyStep (spawn cfg) acts p) :
    (∀ i, Failed p i → ¬ Installed cfg acts i) ↔ Machine.Run step Timely (spawn cfg) acts p := by
  constructor
  · intro hnever
    refine Machine.run_iff_passes.mpr ⟨hrun, fun r act s hp => ?_⟩
    by_contra hok
    obtain ⟨as, bs, rfl, hr, -, hs, hbs⟩ := hp.cut hrun
    obtain ⟨i, hf, ha⟩ := failed_of_not_timely (ordered_of_run hr) hok hs
    have hboth : Failed p i ∧ Accepted p i :=
      hbs.invariant (I := fun p => Failed p i ∧ Accepted p i)
        (fun _ _ _ h _ hs => ⟨h.1.kept (stepped_of_step hs), h.2.kept (stepped_of_step hs)⟩) ⟨hf, ha⟩
    exact hnever i hboth.1 ((accepted_iff_installed hrun).mp hboth.2)
  · intro htimely i hf hinst
    exact failed_of_timely htimely i hf ((accepted_iff_installed hrun).mpr hinst)

/-- A Play is sent while there is no device, and refused. -/
def refusing : List Act := [.call (.play beep .alarm)] ++ works bareHost 7 ++ [.receive 0]

theorem failed_play_iff_refusing :
    ∃ p, Machine.Run step Machine.anyStep (spawn {}) refusing p ∧ Failed p 0 ∧ ¬ Installed {} refusing 0 := by
  obtain ⟨p, hrun, hplays, hi⟩ : ∃ p, Machine.Run step Timely (spawn {}) refusing p ∧ p.plays 0 = true ∧
      p.callers[0]? = some ⟨0, some (.error .deviceUnavailable), some (.error .deviceUnavailable)⟩ :=
    Machine.Run.exists_of_execIf (by decide +kernel)
  have hf : Failed p 0 := ⟨hplays, _, _, hi, rfl⟩
  have hrun' : Machine.Run step Machine.anyStep (spawn {}) refusing p := hrun.mono fun _ _ _ => trivial
  exact ⟨p, hrun', hf, (failed_play_iff hrun').mpr hrun 0 hf⟩

/-- A Play is sent while the worker builds its first stream, and its caller gives up before the worker
comes to it. -/
def late : List Act := [.call (.play beep .alarm), .tick 1000, .giveUp 0] ++ works beepHost 5

/-- The `play` has returned an error, and its sound is installed. -/
theorem late_play_sounds :
    ∃ p caller, Machine.Run step Machine.anyStep (spawn {}) late p ∧ Failed p 0 ∧ p.callers[0]? = some caller ∧
      caller.reply = some (.error .workerUnavailable) ∧ Installed {} late 0 ∧
      p.shared.playback = some { sound := beep, profile := .alarm } := by
  obtain ⟨p, hrun, hplays, hi, hresult, hpb⟩ : ∃ p, Machine.Run step Machine.anyStep (spawn {}) late p ∧
      p.plays 0 = true ∧ p.callers[0]? = some ⟨0, none, some (.error .workerUnavailable)⟩ ∧
      p.results[0]? = some (.ok ()) ∧ p.shared.playback = some { sound := beep, profile := .alarm } :=
    Machine.Run.exists_of_execIf (by decide +kernel)
  exact ⟨p, _, hrun, ⟨hplays, _, _, hi, rfl⟩, hi, rfl, (accepted_iff_installed hrun).mp ⟨hplays, hresult⟩, hpb⟩

/-- A caller that was told that the device is unavailable has been told the truth, in every run. -/
theorem not_installed_of_deviceUnavailable {caller : Caller}
    (hrun : Machine.Run step Machine.anyStep (spawn cfg) acts p) (hi : p.callers[i]? = some caller)
    (hr : caller.reply = some (.error .deviceUnavailable)) : ¬ Installed cfg acts i := by
  intro hinst
  have ha := (accepted_iff_installed hrun).mpr hinst
  rcases (prompt_of_run hrun).replied i caller _ hi hr with hack | hgave
  · have htold := ((ordered_of_run hrun).told i caller hi).ack _ hack
    cases htold.symm.trans ha.2
  · cases hgave

/-! ### Devices that are lost -/

/-- The device can be played on: a stream is open, and is not flagged as lost. -/
def Player.usable (p : Player) : Bool := p.stream.isSome && !p.shared.deviceLost

/-- In the step from `p` to `q` the Play `i` is answered as the device is: ok when it can be played on,
and else that it is unavailable, and nothing is installed. -/
def Answered (i : ℕ) (p q : Player) : Prop :=
  ∃ result, q.pc = .ack i result ∧ (result = .ok () ↔ p.usable = true) ∧
    (p.usable = false → result = .error .deviceUnavailable ∧ q.shared = p.shared)

/-- When the worker handles a Play the flag does not say that the stream it holds is lost. -/
def Agreed (p : Player) : Act → Prop
  | .work _ =>
    match p.pc with
    | .handle i => p.plays i = true → ¬ (p.stream.isSome = true ∧ p.shared.deviceLost = true)
    | _ => True
  | _ => True

instance (p : Player) : (act : Act) → Decidable (Agreed p act)
  | .work _ => Pc.decidableHandle
    (fun i => p.plays i = true → ¬ (p.stream.isSome = true ∧ p.shared.deviceLost = true)) p.pc
  | .call _ | .receive _ | .giveUp _ | .close | .report | .render _ | .tick _ => .isTrue trivial

theorem answered_iff (hs : step p (.work host) = some q) (hpc : p.pc = .handle i) (hplays : p.plays i = true) :
    Answered i p q ↔ ¬ (p.stream.isSome = true ∧ p.shared.deviceLost = true) := by
  obtain ⟨sound, profile, hsent⟩ := Player.plays_iff.mp hplays
  have hq := Option.some.inj ((step_handle hpc hsent).symm.trans hs)
  have hpc' : q.pc = .ack i (p.handle (.play sound profile)).1 := by rw [← hq]
  have hshared : q.shared = (p.handle (.play sound profile)).2 := by rw [← hq]
  by_cases hopen : p.stream.isSome = true
  · have hhandle : (p.handle (.play sound profile)).1 = .ok () := by
      simp only [Player.handle, handlePlay, if_pos hopen]
    rw [hhandle] at hpc'
    by_cases hlost : p.shared.deviceLost = true
    · -- the Play is accepted on a lost device
      refine iff_of_false ?_ fun h => h ⟨hopen, hlost⟩
      intro h
      obtain ⟨result, hack, -, hrefused⟩ := h
      have hunusable : p.usable = false := by simp [Player.usable, hlost]
      cases hack.symm.trans hpc'
      cases (hrefused hunusable).1
    · refine iff_of_true ⟨_, hpc', ?_, ?_⟩ fun h => hlost h.2
      · simp [Player.usable, hopen, hlost]
      · intro hunusable
        simp [Player.usable, hopen, hlost] at hunusable
  · have hhandle : p.handle (.play sound profile) = (.error .deviceUnavailable, p.shared) := by
      simp only [Player.handle, handlePlay, if_neg hopen]
    rw [hhandle] at hpc' hshared
    refine iff_of_true ⟨_, hpc', ?_, fun _ => ⟨rfl, hshared⟩⟩ fun h => hopen h.1
    simp [Player.usable, hopen]

/-- For every run of any number of callers, the worker and the callbacks: every Play that is handled is
answered as the device is, if and only if no Play is handled while the stream the worker holds is
flagged as lost. -/
theorem play_answers_iff {r : Player} (hrun : Machine.Run step Machine.anyStep (spawn cfg) acts r) :
    (∀ p host q i, Machine.Passes step (spawn cfg) acts p (.work host) q → p.pc = .handle i →
      p.plays i = true → Answered i p q) ↔ Machine.Run step Agreed (spawn cfg) acts r := by
  constructor
  · intro hall
    refine Machine.run_iff_passes.mpr ⟨hrun, fun p act q hp => ?_⟩
    cases act with
    | work host =>
      cases hpc : p.pc with
      | handle i =>
        have hs : step p (.work host) = some q := by
          obtain ⟨-, -, -, -, hs⟩ := hp
          exact hs
        show Agreed p (.work host)
        simp only [Agreed, hpc]
        exact fun hplays => (answered_iff hs hpc hplays).mp (hall p host q i hp hpc hplays)
      | _ => simp [Agreed, hpc]
    | _ => exact trivial
  · intro hagreed p host q i hp hpc hplays
    obtain ⟨-, -, -, -, hs⟩ := id hp
    have hok := (Machine.run_iff_passes.mp hagreed).2 _ _ _ hp
    simp only [Agreed, hpc] at hok
    exact (answered_iff hs hpc hplays).mpr (hok hplays)

/-- A Play is sent to a worker that waits with a stream open, and handled. -/
def accepting : List Act := works beepHost 3 ++ [.call (.play beep .alarm)] ++ works beepHost 2

theorem play_answers_iff_accepting :
    ∃ p q, Machine.Passes step (spawn {}) accepting p (.work beepHost) q ∧ p.pc = .handle 0 ∧ Answered 0 p q ∧
      q.pc = .ack 0 (.ok ()) := by
  obtain ⟨r, hrun⟩ : ∃ r, Machine.Run step Agreed (spawn {}) accepting r := by
    obtain ⟨r, hrun, -⟩ : ∃ r, Machine.Run step Agreed (spawn {}) accepting r ∧ True :=
      Machine.Run.exists_of_execIf (by decide +kernel)
    exact ⟨r, hrun⟩
  obtain ⟨p, hp, hpc, hplays, hnext⟩ : ∃ p, Machine.Run step Machine.anyStep (spawn {}) (accepting.take 5) p ∧
      p.pc = .handle 0 ∧ p.plays 0 = true ∧ (step p (.work beepHost)).map Player.pc = some (.ack 0 (.ok ())) :=
    Machine.Run.exists_of_execIf (by decide +kernel)
  obtain ⟨q, hs, hq⟩ := Option.map_eq_some_iff.mp hnext
  have hpass := hp.passes_last hs
  exact ⟨p, q, hpass, hpc,
    (play_answers_iff (hrun.mono fun _ _ _ => trivial)).mpr hrun p beepHost q 0 hpass hpc hplays, hq⟩

/-- A worker that waits for a command with a stream open: the stream reports that the device is lost,
and then a Play is sent. -/
def unheard : List Act := works beepHost 3 ++ [.report, .call (.play beep .alarm), .work beepHost]

/-- The Play is handled while the stream is flagged as lost, and is accepted and installed. -/
theorem lost_device_accepts :
    ∃ p q, Machine.Passes step (spawn {}) (unheard ++ [.work beepHost]) p (.work beepHost) q ∧ p.pc = .handle 0 ∧
      p.plays 0 = true ∧ p.shared.deviceLost = true ∧ q.pc = .ack 0 (.ok ()) ∧
      q.shared.playback = some { sound := beep, profile := .alarm } ∧ ¬ Answered 0 p q := by
  obtain ⟨p, hp, hpc, hplays, hopen, hlost, hnext⟩ : ∃ p, Machine.Run step Machine.anyStep (spawn {}) unheard p ∧
      p.pc = .handle 0 ∧ p.plays 0 = true ∧ p.stream.isSome = true ∧ p.shared.deviceLost = true ∧
      ((step p (.work beepHost)).map fun q => (q.pc, q.shared.playback)) =
        some (.ack 0 (.ok ()), some { sound := beep, profile := .alarm }) :=
    Machine.Run.exists_of_execIf (by decide +kernel)
  obtain ⟨q, hs, hq⟩ := Option.map_eq_some_iff.mp hnext
  obtain ⟨hqpc, hqpb⟩ := Prod.mk.inj hq
  exact ⟨p, q, hp.passes_last hs, hpc, hplays, hlost, hqpc, hqpb,
    fun h => (answered_iff hs hpc hplays).mp h ⟨hopen, hlost⟩⟩

/-! ### When a loss is missed -/

/-- The worker waits for a command, or holds one. -/
def Pc.listens : Pc → Bool
  | .recv _ | .handle _ => true
  | _ => false

/-- No stream reports an error while the worker waits for a command or holds one. -/
def Quiet (p : Player) : Act → Prop
  | .report => p.pc.listens = false
  | _ => True

/-- While the worker waits for a command or holds one, it does not hold a stream that is flagged as lost. -/
def Current (p : Player) : Prop := p.pc.listens = true → ¬ (p.stream.isSome = true ∧ p.shared.deviceLost = true)

theorem Current.worked (hI : Current p) (hw : Worked host p q) : Current q := by
  cases hw with
  | moved hm =>
    cases hm with
    | waits hpc h => exact fun _ hboth => h ⟨hboth.2, hboth.1⟩
    | _ => rintro ⟨⟩
  | dropped hpc =>
    intro _ hboth
    cases hboth.1
  | built hpc hb => rcases hpc with ⟨-, rfl⟩ | ⟨-, rfl⟩ <;> rintro ⟨⟩
  | took hpc hlt => exact fun _ => hI (by rw [hpc]; rfl)
  | _ => rintro ⟨⟩

theorem Current.step (hI : Current p) (hok : Quiet p act) (hs : step p act = some q) : Current q := by
  cases stepped_of_step hs with
  | worked hw => exact hI.worked hw
  | reported hstream =>
    intro hlistens
    exact absurd hlistens (by rw [show p.pc.listens = false from hok]; exact Bool.false_ne_true)
  | @rendered stream n hstream =>
    intro hlistens hboth
    refine hI hlistens ⟨by rw [hstream]; rfl, ?_⟩
    exact (stream.deviceLost_render n p.shared).symm.trans hboth.2
  | called command hopen => exact hI
  | received hi => exact hI
  | gaveUp hi hle => exact hI
  | closed hopen hall => exact hI
  | ticked ms => exact hI

/-- A loss is only missed when it is reported after the worker has looked at the flag: when no stream
reports an error while the worker waits for a command or holds one, every Play is answered as the
device is. -/
theorem agreed_of_quiet (hrun : Machine.Run step Quiet (spawn cfg) acts p) :
    Machine.Run step Agreed (spawn cfg) acts p := by
  refine Machine.run_iff_passes.mpr ⟨hrun.mono fun _ _ _ => trivial, fun r act s hp => ?_⟩
  obtain ⟨as, bs, rfl, hr, -, -, -⟩ := hp.cut hrun
  have hcurrent : Current r :=
    hr.invariant (fun _ _ _ hI hok hs => hI.step hok hs) (by rintro ⟨⟩)
  cases act with
  | work host =>
    cases hpc : r.pc with
    | handle i =>
      show Agreed r (.work host)
      simp only [Agreed, hpc]
      exact fun _ => hcurrent (by rw [hpc]; rfl)
    | _ => simp [Agreed, hpc]
  | _ => exact trivial

end HelmAlarm.Audio.CpalAudio
