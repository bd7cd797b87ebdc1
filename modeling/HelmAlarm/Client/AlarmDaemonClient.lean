import HelmAlarm.Ipc.Control

/-!
# The client library

The two readings of `AlarmDaemonClient` in the crate `alarm-daemon-client`, over
the replies it gets from the bus. The daemon replies to `CurrentSound` with the
empty string when there is no sound, and the client turns that into `None`.

The cached proxy is left out: it changes no reply.
-/

namespace HelmAlarm.Client

open HelmAlarm.Ipc

/-- Error returned by client operations. -/
inductive ClientError where
  /-- A D-Bus transport, serialization, or remote method error. -/
  | dBus (message : String)
  deriving DecidableEq, Repr

/-- The replies to the calls a client makes. -/
structure Proxy where
  /-- `Status`. -/
  status : Except ClientError Bool
  /-- `CurrentSound`. -/
  currentSound : Except ClientError String

/-- The replies of a daemon in the state `c`. -/
def proxy (c : Control) : Proxy := ⟨.ok c.status, .ok c.currentSound⟩

/-- `AlarmDaemonClient::status`. -/
def status (p : Proxy) : Except ClientError Bool := do
  let armed ← p.status
  .ok armed

/-- `AlarmDaemonClient::current_sound`. -/
def currentSound (p : Proxy) : Except ClientError (Option String) := do
  let soundId ← p.currentSound
  if soundId = "" then .ok none else .ok (some soundId)

@[simp] theorem status_proxy (c : Control) : status (proxy c) = .ok c.status := rfl

/-- A client sees the sound that the daemon holds, unless that is the empty string. -/
theorem currentSound_proxy {c : Control} (h : ∀ id ∈ c.daemon.currentSound, id ≠ "") :
    currentSound (proxy c) = .ok c.daemon.currentSound := by
  simp only [currentSound, proxy, Control.currentSound, bind, Except.bind]
  cases hs : c.daemon.currentSound with
  | none => rfl
  | some id => exact if_neg (h id hs)

end HelmAlarm.Client
