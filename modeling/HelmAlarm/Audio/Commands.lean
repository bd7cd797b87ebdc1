import HelmAlarm.Audio.Worker
import HelmAlarm.Library.Pool

/-!
# What is played

The worker takes the commands from its channel in the order in which they were sent,
one at a time, and each is handled whether or not its caller still waits. So what is
played is the sound of the last Play that was accepted, and no Stop was handled after
it; the data callback advances it or clears it, and nothing else touches it
(`Ordered`). After a Stop that returned, no buffer is anything but silence until
another Play is sent: `plays_last_accepted`.
-/

namespace HelmAlarm.Audio.CpalAudio

open HelmAlarm.Library

variable {cfg : CpalConfig} {p q : Player} {act : Act} {acts : List Act} {stream : Stream} {host : AudioHost}
  {shared : Shared} {i k : ℕ} {sound : DecodedSound} {profile : VolumeProfile}

/-! ### Silent buffers -/

/-- The buffer of a stream without channels is never written to. -/
def Stream.Clean (stream : Stream) : Prop := stream.config.channels = 0 → ∀ x ∈ stream.scratch, x = 0

theorem Stream.Clean.buffer (h : stream.Clean) (hc : stream.config.channels = 0) (n : ℕ) :
    ∀ x ∈ stream.scratch ++ List.replicate (n - stream.scratch.length) 0, x = 0 := by
  intro x hx
  rcases List.mem_append.mp hx with hx | hx
  · exact h hc x hx
  · exact List.eq_of_mem_replicate hx

theorem Stream.Clean.render (h : stream.Clean) (n : ℕ) : (stream.render n shared).2.2.Clean := by
  intro hc x hx
  apply h.buffer hc n
  have hfill : (stream.render n shared).2.2.scratch =
      stream.scratch ++ List.replicate (n - stream.scratch.length) 0 := by
    have hc' : stream.config.channels = 0 := hc
    simp only [Stream.render, fillF32, if_pos hc', List.take_append_drop]
  rwa [hfill] at hx

/-- With nothing to play a buffer is silent. -/
theorem Stream.Clean.silent (h : stream.Clean) (hnone : shared.playback = none) (n : ℕ) :
    ∀ x ∈ (stream.render n shared).1, x = 0 := by
  intro x hx
  simp only [Stream.render, fillF32_of_none hnone] at hx
  split at hx
  · rename_i hc
    exact h.buffer hc n x (List.mem_of_mem_take hx)
  · exact List.eq_of_mem_replicate hx

theorem Stream.advances_render {n : ℕ} {pb' : Playback} (h : (stream.render n shared).2.1.playback = some pb') :
    ∃ pb, shared.playback = some pb ∧ pb.Advances pb' := advances_fillF32 h

/-! ### The order of the commands -/

/-- The command `i` is the last Play that was accepted, and no Stop was handled after it. -/
structure LastPlay (p : Player) (i : ℕ) (sound : DecodedSound) (profile : VolumeProfile) : Prop where
  /-- It is a Play. -/
  sent : p.sent[i]? = some (.play sound profile)
  /-- It was accepted. -/
  accepted : p.results[i]? = some (.ok ())
  /-- What was handled after it is neither a Stop, nor was it accepted. -/
  latest : ∀ j result, i < j → p.results[j]? = some result → p.sent[j]? ≠ some .stop ∧ result ≠ .ok ()

/-- How many commands the worker holds that it has not handled. -/
def Pc.held : Pc → ℕ
  | .handle _ => 1
  | _ => 0

/-- The worker holds no command, and has no caller to tell. -/
def Pc.free : Pc → Bool
  | .handle _ | .ack _ _ => false
  | _ => true

theorem Pc.held_of_free {pc : Pc} (h : pc.free = true) : pc.held = 0 := by
  cases pc with
  | handle i => cases h
  | _ => rfl

/-- What the caller `i` was told, and returned, is what was made of its command. -/
structure Told (results : List (Except AudioError Unit)) (i : ℕ) (caller : Caller) : Prop where
  /-- It was told the result. -/
  ack : ∀ result, caller.ack = some result → results[i]? = some result
  /-- If it returned ok it was told so. -/
  reply : caller.reply = some (.ok ()) → caller.ack = some (.ok ())

theorem Told.add {results : List (Except AudioError Unit)} {caller : Caller} (h : Told results i caller)
    (result : Except AudioError Unit) : Told (results ++ [result]) i caller :=
  ⟨fun _ hack => Pool.add_of_some (h.ack _ hack), h.reply⟩

/-- The commands are handled in order, and what is played is what they say. -/
structure Ordered (p : Player) : Prop where
  /-- What was taken was sent. -/
  taken : p.taken ≤ p.sent.length
  /-- What was taken was handled, but for the command the worker holds. -/
  handled : p.taken = p.results.length + p.pc.held
  /-- That one is the next. -/
  next : ∀ i, p.pc = .handle i → i = p.results.length
  /-- A caller is told what was made of its command. -/
  telling : ∀ i result, p.pc = .ack i result → p.results[i]? = some result
  /-- So it was. -/
  told : ∀ i caller, p.callers[i]? = some caller → Told p.results i caller
  /-- What is played is the last Play, advanced. -/
  installed : ∀ pb, p.shared.playback = some pb → ∃ i sound profile, LastPlay p i sound profile ∧
    Playback.Advances { sound := sound, profile := profile } pb
  /-- A stream without channels has written nothing. -/
  clean : ∀ stream, p.stream = some stream → stream.Clean

theorem ordered_spawn (cfg : CpalConfig) : Ordered (spawn cfg) where
  taken := le_rfl
  handled := rfl
  next := by rintro i ⟨⟩
  telling := by rintro i result ⟨⟩
  told := by rintro i caller ⟨⟩
  installed := by rintro pb ⟨⟩
  clean := by rintro stream ⟨⟩

/-- Commands that are sent, and not handled yet, change nothing. -/
theorem LastPlay.frame (h : LastPlay p i sound profile) (hresults : q.results = p.results)
    (hsent : ∀ j, j < p.results.length → q.sent[j]? = p.sent[j]?) : LastPlay q i sound profile := by
  refine ⟨?_, by rw [hresults, h.accepted], fun j result hij hj => ?_⟩
  · rw [hsent i (List.getElem?_eq_some_iff.mp h.accepted).1, h.sent]
  · rw [hresults] at hj
    rw [hsent j (List.getElem?_eq_some_iff.mp hj).1]
    exact h.latest j result hij hj

/-- What the order asks of the worker holds wherever it goes without taking or handling a command. -/
theorem Ordered.at_pc {pc : Pc} (hI : Ordered p) (hpc : pc = p.pc ∨ p.pc.held = 0 ∧ pc.free = true) :
    p.taken = p.results.length + pc.held ∧ (∀ i, pc = .handle i → i = p.results.length) ∧
      ∀ i result, pc = .ack i result → p.results[i]? = some result := by
  rcases hpc with rfl | ⟨hheld, hfree⟩
  · exact ⟨hI.handled, hI.next, hI.telling⟩
  · refine ⟨by rw [hI.handled, hheld, Pc.held_of_free hfree], ?_, ?_⟩
    · rintro i rfl
      cases hfree
    · rintro i result rfl
      cases hfree

/-- What is played is still the last Play, if no command was handled, and it was only advanced. -/
theorem Ordered.still_installed {pb pb' : Playback} (hI : Ordered p) (hresults : q.results = p.results)
    (hsent : ∀ j, j < p.results.length → q.sent[j]? = p.sent[j]?) (hp : p.shared.playback = some pb)
    (hadv : pb.Advances pb') : ∃ i sound profile, LastPlay q i sound profile ∧
      Playback.Advances { sound := sound, profile := profile } pb' := by
  obtain ⟨i, sound, profile, hlast, hfirst⟩ := hI.installed pb hp
  exact ⟨i, sound, profile, hlast.frame hresults hsent, hfirst.trans hadv⟩

/-- A step that only advances or clears what is played, and opens or drops a stream. -/
theorem Ordered.frame {pc : Pc} {shared : Shared} {stream : Option Stream} {lastRetry now : ℕ} {closed : Bool}
    {rendered : List (List ℚ)} (hI : Ordered p) (hpc : pc = p.pc ∨ p.pc.held = 0 ∧ pc.free = true)
    (hpb : ∀ pb', shared.playback = some pb' → ∃ pb, p.shared.playback = some pb ∧ pb.Advances pb')
    (hclean : ∀ st, stream = some st → st.Clean) :
    Ordered { p with pc, shared, stream, lastRetry, now, closed, rendered } := by
  obtain ⟨hhandled, hnext, htelling⟩ := hI.at_pc hpc
  refine ⟨hI.taken, hhandled, hnext, htelling, hI.told, fun pb' hp' => ?_, hclean⟩
  obtain ⟨pb, hp, hadv⟩ := hpb pb' hp'
  exact hI.still_installed rfl (fun _ _ => rfl) hp hadv

/-- Nothing is done to what is played. -/
theorem Playback.kept {playback : Option Playback} {pb' : Playback} (h : playback = some pb') :
    ∃ pb, playback = some pb ∧ pb.Advances pb' := ⟨pb', h, .refl⟩

theorem Moves.free {pc : Pc} (hm : Moves host p pc) : p.pc.held = 0 ∧ pc.free = true := by
  cases hm <;> simp [*, Pc.held, Pc.free]

/-- A command that is sent is behind those that were handled. -/
theorem Ordered.called (hI : Ordered p) (command : PlayerCommand) :
    Ordered { p with sent := p.sent ++ [command], callers := p.callers ++ [{ since := p.now }] } where
  taken := by
    rw [List.length_append]
    exact Nat.le_add_right_of_le hI.taken
  handled := hI.handled
  next := hI.next
  telling := hI.telling
  told := by
    intro i caller hi
    rcases Pool.of_add hi with ⟨-, rfl⟩ | hi
    · exact ⟨by rintro result ⟨⟩, by rintro ⟨⟩⟩
    · exact hI.told i caller hi
  installed := by
    intro pb hp
    refine hI.still_installed rfl (fun j hj => ?_) hp .refl
    have hle := hI.taken
    rw [hI.handled] at hle
    exact List.getElem?_append_left (by omega)
  clean := hI.clean

/-- Callers are told what was made of their commands, or return. -/
theorem Ordered.callers {callers : List Caller} {pc : Pc} (hI : Ordered p)
    (hpc : pc = p.pc ∨ p.pc.held = 0 ∧ pc.free = true)
    (htold : ∀ i caller, callers[i]? = some caller → Told p.results i caller) :
    Ordered { p with pc, callers } := by
  obtain ⟨hhandled, hnext, htelling⟩ := hI.at_pc hpc
  exact ⟨hI.taken, hhandled, hnext, htelling, htold,
    fun pb hp => hI.still_installed rfl (fun _ _ => rfl) hp .refl, hI.clean⟩

/-- One caller is. -/
theorem Ordered.told_set {caller : Caller} (hI : Ordered p) (hcaller : Told p.results i caller) :
    ∀ j caller', (p.callers.set i caller)[j]? = some caller' → Told p.results j caller' := by
  intro j caller' hj
  rcases Pool.of_set hj with ⟨rfl, rfl⟩ | ⟨-, hj⟩
  · exact hcaller
  · exact hI.told j caller' hj

/-- What is played after a command was handled. -/
theorem Ordered.installed_handled {command : PlayerCommand} {pb : Playback} (hI : Ordered p)
    (hi : p.sent[p.results.length]? = some command)
    (hq : q.sent = p.sent ∧ q.results = p.results ++ [(p.handle command).1])
    (hpb : (p.handle command).2.playback = some pb) :
    ∃ i sound profile, LastPlay q i sound profile ∧
      Playback.Advances { sound := sound, profile := profile } pb := by
  obtain ⟨hsent, hresults⟩ := hq
  rcases p.handle_cases command with ⟨sound, profile, rfl, -, hh⟩ | ⟨sound, profile, rfl, -, hh⟩ | ⟨rfl, hh⟩
  · -- a Play that is accepted is the last command
    rw [hh] at hpb hresults
    obtain rfl := Option.some.inj hpb
    refine ⟨p.results.length, sound, profile, ⟨?_, ?_, fun j result hij hj => ?_⟩, .refl⟩
    · rw [hsent, hi]
    · rw [hresults]
      exact Pool.add_self
    · rw [hresults] at hj
      obtain ⟨hlt, -⟩ := List.getElem?_eq_some_iff.mp hj
      simp only [List.length_append, List.length_singleton] at hlt
      omega
  · -- one that is not leaves what was played, and is not a Stop
    rw [hh] at hpb hresults
    obtain ⟨i, sound', profile', hlast, hadv⟩ := hI.installed pb hpb
    refine ⟨i, sound', profile', ⟨?_, ?_, fun j result hij hj => ?_⟩, hadv⟩
    · rw [hsent, hlast.sent]
    · rw [hresults]
      exact Pool.add_of_some hlast.accepted
    · rw [hresults] at hj
      rw [hsent]
      rcases Pool.of_add hj with ⟨rfl, rfl⟩ | hj
      · rw [hi]
        exact ⟨by simp, by simp⟩
      · exact hlast.latest j result hij hj
  · rw [hh] at hpb
    cases hpb

theorem Ordered.worked (hI : Ordered p) (hw : Worked host p q) : Ordered q := by
  cases hw with
  | moved hm => exact hI.frame (.inr hm.free) (fun _ => Playback.kept) hI.clean
  | timed hpc =>
    refine hI.frame (.inr ⟨?_, rfl⟩) (fun _ => Playback.kept) hI.clean
    rcases hpc with hpc | hpc <;> rw [hpc] <;> rfl
  | flagged hpc => exact hI.frame (.inr ⟨by rw [hpc]; rfl, rfl⟩) (fun _ => Playback.kept) hI.clean
  | built hpc hb =>
    refine hI.frame (.inr ?_) (fun _ => Playback.kept) ?_
    · rcases hpc with ⟨hpc, rfl⟩ | ⟨hpc, rfl⟩ <;> rw [hpc] <;> exact ⟨rfl, rfl⟩
    · rintro _ ⟨⟩ - x hx
      cases hx
  | cleared hpc => exact hI.frame (.inr ⟨by rw [hpc]; rfl, rfl⟩) (fun _ => Playback.kept) hI.clean
  | dropped hpc =>
    refine hI.frame (.inr ?_) (fun _ => Playback.kept) (by rintro _ ⟨⟩)
    rcases hpc with ⟨hpc, rfl⟩ | ⟨hpc, rfl⟩ <;> rw [hpc] <;> exact ⟨rfl, rfl⟩
  | took hpc hlt =>
    have hhandled : p.taken = p.results.length := by
      rw [hI.handled, hpc]
      rfl
    refine ⟨hlt, congrArg (· + 1) hhandled, ?_, by rintro i result ⟨⟩, hI.told, ?_, hI.clean⟩
    · rintro i ⟨⟩
      exact hhandled
    · exact fun pb hp => hI.still_installed rfl (fun _ _ => rfl) hp .refl
  | @handled i command hpc hi =>
    obtain rfl := hI.next i hpc
    refine ⟨hI.taken, ?_, by rintro i ⟨⟩, ?_, ?_, ?_, hI.clean⟩
    · rw [hI.handled, hpc, List.length_append]
      rfl
    · rintro i result ⟨⟩
      exact Pool.add_self
    · exact fun i caller hi => (hI.told i caller hi).add _
    · exact fun pb hp => hI.installed_handled hi ⟨rfl, rfl⟩ hp
  | @acked i result hpc =>
    refine hI.callers (.inr ⟨by rw [hpc]; rfl, rfl⟩) fun j caller hj => ?_
    rw [List.getElem?_modify] at hj
    obtain ⟨caller', hj', rfl⟩ := Option.map_eq_some_iff.mp hj
    have htold := hI.told j caller' hj'
    split
    · rename_i hij
      subst hij
      have hresult := hI.telling i result hpc
      refine ⟨fun result' hack => ?_, fun hreply => ?_⟩
      · obtain rfl := Option.some.inj hack
        exact hresult
      · have hok := htold.ack _ (htold.reply hreply)
        rw [hresult] at hok
        exact hok
    · exact htold

theorem Ordered.step (hI : Ordered p) (hs : step p act = some q) : Ordered q := by
  cases stepped_of_step hs with
  | called command hopen => exact hI.called command
  | received hi => exact hI.callers (.inl rfl) (hI.told_set ⟨(hI.told _ _ hi).ack, id⟩)
  | gaveUp hi hle => exact hI.callers (.inl rfl) (hI.told_set ⟨by rintro result ⟨⟩, by rintro ⟨⟩⟩)
  | closed hopen hall => exact hI.frame (.inl rfl) (fun _ => Playback.kept) hI.clean
  | worked hw => exact hI.worked hw
  | reported hstream =>
    refine hI.frame (.inl rfl) (fun _ => Playback.kept) ?_
    rintro _ ⟨⟩
    have hclean := hI.clean _ hstream
    exact hclean
  | rendered n hstream =>
    refine hI.frame (.inl rfl) (fun _ => Stream.advances_render) ?_
    rintro _ ⟨⟩
    exact (hI.clean _ hstream).render n
  | ticked ms => exact hI.frame (.inl rfl) (fun _ => Playback.kept) hI.clean

theorem ordered_of_run (hrun : Machine.Run step Machine.anyStep (spawn cfg) acts p) : Ordered p :=
  hrun.invariant (fun _ _ _ hI _ hs => hI.step hs) (ordered_spawn cfg)

/-! ### After a Stop -/

/-- What was sent stays where it is, and so does what was made of it. -/
theorem Stepped.kept (h : Stepped p act q) (k : ℕ) :
    (∀ command, p.sent[k]? = some command → q.sent[k]? = some command) ∧
      ∀ result, p.results[k]? = some result → q.results[k]? = some result := by
  cases h with
  | called command hopen => exact ⟨fun _ => Pool.add_of_some, fun _ => id⟩
  | worked hw =>
    cases hw with
    | handled hpc hi => exact ⟨fun _ => id, fun _ => Pool.add_of_some⟩
    | _ => exact ⟨fun _ => id, fun _ => id⟩
  | _ => exact ⟨fun _ => id, fun _ => id⟩

/-- The Stop `k` was handled, and no Play was sent after it. -/
structure Stopped (p : Player) (k : ℕ) : Prop where
  /-- It is a Stop. -/
  stop : p.sent[k]? = some .stop
  /-- It was handled. -/
  handled : ∃ result, p.results[k]? = some result
  /-- No Play was sent after it. -/
  noPlay : ∀ j sound profile, k < j → p.sent[j]? ≠ some (.play sound profile)

/-- Then nothing is played. -/
theorem Ordered.playback_of_stopped (hI : Ordered p) (hk : Stopped p k) : p.shared.playback = none := by
  cases hp : p.shared.playback with
  | none => rfl
  | some pb =>
    obtain ⟨i, sound, profile, hlast, -⟩ := hI.installed pb hp
    obtain ⟨result, hresult⟩ := hk.handled
    rcases Nat.lt_trichotomy i k with hik | rfl | hki
    · exact absurd hk.stop (hlast.latest k result hik hresult).1
    · cases hk.stop.symm.trans hlast.sent
    · exact absurd hlast.sent (hk.noPlay i sound profile hki)

/-- A step that comes when nothing is played, and renders a buffer, renders silence. -/
theorem Stepped.silent (h : Stepped p act q) (hI : Ordered p) (hnone : p.shared.playback = none) :
    ∃ bufs : List (List ℚ), q.rendered = p.rendered ++ bufs ∧ ∀ buf ∈ bufs, ∀ x ∈ buf, x = 0 := by
  have hnothing : ∃ bufs : List (List ℚ), p.rendered = p.rendered ++ bufs ∧ ∀ buf ∈ bufs, ∀ x ∈ buf, x = 0 :=
    ⟨[], (List.append_nil _).symm, fun _ h => absurd h List.not_mem_nil⟩
  cases h with
  | rendered n hstream =>
    refine ⟨_, rfl, fun buf hbuf => ?_⟩
    obtain rfl := List.mem_singleton.mp hbuf
    exact (hI.clean _ hstream).silent hnone n
  | worked hw => cases hw <;> exact hnothing
  | _ => exact hnothing

/-- After a Stop that was handled, and until another Play is sent, every buffer is silent. -/
theorem silent_of_stopped (hrun : Machine.Run step Machine.anyStep p acts q) (hI : Ordered p)
    (hstop : p.sent[k]? = some .stop) (hhandled : ∃ result, p.results[k]? = some result)
    (hno : ∀ j sound profile, k < j → q.sent[j]? ≠ some (.play sound profile)) :
    Stopped p k ∧ ∃ bufs : List (List ℚ), q.rendered = p.rendered ++ bufs ∧ ∀ buf ∈ bufs, ∀ x ∈ buf, x = 0 := by
  induction hrun with
  | nil => exact ⟨⟨hstop, hhandled, hno⟩, [], (List.append_nil _).symm, fun _ h => absurd h List.not_mem_nil⟩
  | @cons p r q act acts _ hs _ ih =>
    have hst := stepped_of_step hs
    obtain ⟨result, hresult⟩ := hhandled
    obtain ⟨hr, bufs', hbufs', hsilent'⟩ :=
      ih (hI.step hs) ((hst.kept k).1 _ hstop) ⟨result, (hst.kept k).2 _ hresult⟩ hno
    have hp : Stopped p k := ⟨hstop, ⟨result, hresult⟩, fun j sound profile hkj hj =>
      hr.noPlay j sound profile hkj ((hst.kept j).1 _ hj)⟩
    obtain ⟨bufs, hbufs, hsilent⟩ := hst.silent hI (hI.playback_of_stopped hp)
    refine ⟨hp, bufs ++ bufs', by rw [hbufs', hbufs, List.append_assoc], fun buf hbuf => ?_⟩
    rcases List.mem_append.mp hbuf with hbuf | hbuf
    · exact hsilent buf hbuf
    · exact hsilent' buf hbuf

/-- For every run of any number of callers, the worker and the callbacks, over any number of losses and
rebuilds: what is played is the sound of the last Play that was accepted, in the order in which they
were sent, and no Stop was handled after it; the data callback advances it or clears it; and once a
`stop` has returned ok, every buffer is silent until another Play is sent. -/
theorem plays_last_accepted (hrun : Machine.Run step Machine.anyStep (spawn cfg) acts p) :
    (∀ pb, p.shared.playback = some pb → ∃ i sound profile, LastPlay p i sound profile ∧
      pb.sound = sound ∧ pb.profile = profile ∧ Playback.Advances { sound := sound, profile := profile } pb) ∧
    (∀ n q pb', step p (.render n) = some q → q.shared.playback = some pb' →
      ∃ pb, p.shared.playback = some pb ∧ pb.Advances pb') ∧
    ∀ (k : ℕ) (caller : Caller) (bs : List Act) (q : Player), p.sent[k]? = some .stop → p.callers[k]? = some caller →
      caller.reply = some (.ok ()) → Machine.Run step Machine.anyStep p bs q →
      (∀ j sound profile, k < j → q.sent[j]? ≠ some (.play sound profile)) →
      ∃ bufs : List (List ℚ), q.rendered = p.rendered ++ bufs ∧ ∀ buf ∈ bufs, ∀ x ∈ buf, x = 0 := by
  have hI := ordered_of_run hrun
  refine ⟨fun pb hp => ?_, fun n q pb' hs hp' => ?_, fun k caller bs q hstop hk hreply hbs hno => ?_⟩
  · obtain ⟨i, sound, profile, hlast, hadv⟩ := hI.installed pb hp
    exact ⟨i, sound, profile, hlast, hadv.sound.1, hadv.sound.2, hadv⟩
  · cases stepped_of_step hs with
    | rendered n hstream => exact Stream.advances_render hp'
  · have htold := hI.told k caller hk
    exact (silent_of_stopped hbs hI hstop ⟨_, htold.ack _ (htold.reply hreply)⟩ hno).2

/-- A sound of two frames. -/
def beep : DecodedSound := ⟨[1, 1], 1, 8000, by decide, Nat.one_pos, by decide⟩

/-- A device that is there. -/
def beepHost : AudioHost := ⟨.ok [], some ⟨none, .ok (.f32, ⟨1, 8000⟩), .ok (), .ok ()⟩⟩

/-- A Play whose caller gives up before it is handled, and a Stop that returns; between the two a
frame is played. -/
def stopping : List Act :=
  [.call (.play beep .alarm), .tick 1000, .giveUp 0, .call .stop] ++ works beepHost 6 ++ [.render 1] ++
    works beepHost 6 ++ [.receive 1]

/-- The device is lost and found again, and asks for two frames. -/
def recoveringSilent : List Act :=
  [.report] ++ works beepHost 2 ++ [.tick 5000] ++ works beepHost 5 ++ [.render 2]

theorem plays_last_accepted_stopping :
    ∃ p q bufs, Machine.Run step Machine.anyStep (spawn {}) stopping p ∧ p.rendered = [[1]] ∧
      Machine.Run step Machine.anyStep p recoveringSilent q ∧ q.rendered = [[1]] ++ bufs ∧
      (∀ buf ∈ bufs, ∀ x ∈ buf, x = 0) ∧ bufs.length = 1 := by
  obtain ⟨p, hrun, hsent, hcaller, hrendered, hnext⟩ : ∃ p, Machine.Run step Machine.anyStep (spawn {}) stopping p ∧
      p.sent[1]? = some .stop ∧ p.callers[1]? = some ⟨1000, some (.ok ()), some (.ok ())⟩ ∧ p.rendered = [[1]] ∧
      ((step.exec p recoveringSilent).map fun q => (q.sent, q.rendered.length)) =
        some ([.play beep .alarm, .stop], 2) := Machine.Run.exists_of_execIf (by decide +kernel)
  obtain ⟨q, hq, heq⟩ := Option.map_eq_some_iff.mp hnext
  obtain ⟨hqsent, hlength⟩ := Prod.mk.inj heq
  have hno : ∀ j sound profile, 1 < j → q.sent[j]? ≠ some (.play sound profile) := by
    intro j sound profile hj
    rw [hqsent, List.getElem?_eq_none hj]
    rintro ⟨⟩
  obtain ⟨bufs, hbufs, hsilent⟩ :=
    (plays_last_accepted hrun).2.2 1 _ _ q hsent hcaller rfl (Machine.exec_eq_some_iff.mp hq) hno
  rw [hrendered] at hbufs
  refine ⟨p, q, bufs, hrun, hrendered, Machine.exec_eq_some_iff.mp hq, hbufs, hsilent, ?_⟩
  rw [hbufs] at hlength
  simpa using hlength

end HelmAlarm.Audio.CpalAudio
