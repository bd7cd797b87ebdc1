import HelmAlarm.Library.LittleEndian
import HelmAlarm.Library.Machine
import HelmAlarm.Library.Pool
import HelmAlarm.Library.ChangeLog
import HelmAlarm.Library.Linearizability
import HelmAlarm.Library.Cyclic
import HelmAlarm.Library.FileNames
import HelmAlarm.Daemon.State
import HelmAlarm.Daemon.Codec
import HelmAlarm.Daemon.Grammar
import HelmAlarm.Daemon.Indexing
import HelmAlarm.Daemon.Truncation
import HelmAlarm.Daemon.Clock
import HelmAlarm.Daemon.Persistence
import HelmAlarm.Daemon.AlarmDaemon
import HelmAlarm.Daemon.Retrying
import HelmAlarm.Daemon.Clones
import HelmAlarm.Daemon.Sharing
import HelmAlarm.Audio.AlarmAudio
import HelmAlarm.Audio.Sounds
import HelmAlarm.Audio.CpalAudio
import HelmAlarm.Audio.Worker
import HelmAlarm.Ipc.Control
import HelmAlarm.Ipc.Handlers
import HelmAlarm.Ipc.Triggers
import HelmAlarm.Ipc.Cancelling
import HelmAlarm.Ipc.Acknowledging
import HelmAlarm.Ipc.Rearming
import HelmAlarm.Ipc.Signals
import HelmAlarm.Ipc.Alarm
import HelmAlarm.Ipc.Sequential
import HelmAlarm.Ipc.Refinement
import HelmAlarm.Client.AlarmDaemonClient
import HelmAlarm.Ipc.Confinement
import HelmAlarm.Ipc.Coherence
import HelmAlarm.Ipc.Restarting
import HelmAlarm.Ipc.Recovery
import HelmAlarm.Audio.DeviceLoss
import HelmAlarm.Audio.Commands
import HelmAlarm.Audio.Answers
import HelmAlarm.Audio.Rendering
import HelmAlarm.Audio.Listing
import HelmAlarm.Audio.Contents
import HelmAlarm.Audio.Offered
import HelmAlarm.Ipc.Listing
import HelmAlarm.Audio.Attending
import HelmAlarm.Audio.Recovering
import HelmAlarm.Audio.Amplitude
import HelmAlarm.Audio.Decoded
import HelmAlarm.Ipc.Firing
import HelmAlarm.Ipc.Outcomes
import HelmAlarm.Ipc.Durability
import HelmAlarm.Ipc.Linearizing
import HelmAlarm.Process.World
import HelmAlarm.Process.Sounding
import HelmAlarm.Process.Hearing
import HelmAlarm.Process.Returning
import HelmAlarm.Process.Service
import HelmAlarm.Process.Lifetimes
import HelmAlarm.Process.Watchdog
