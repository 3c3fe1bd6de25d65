import LeapSyncFfh.Leap.StartUp
import LeapSyncFfh.Ffh.FfhCtrl
import LeapSyncFfh.Task.Mapping
import LeapSyncFfh.Task.Loss
import LeapSyncFfh.Task.Connecting
import LeapSyncFfh.Task.Limits
import LeapSyncFfh.Task.Envelope
import LeapSyncFfh.Task.LeftOpen
import LeapSyncFfh.Ffh.Sockets
import LeapSyncFfh.Task.LeapConnections
import LeapSyncFfh.Common.Shutdown
import LeapSyncFfh.Common.Production
import LeapSyncFfh.Leap.Quiesce
import LeapSyncFfh.Leap.Isolation
import LeapSyncFfh.Task.RigidMotion
import LeapSyncFfh.Task.History
import LeapSyncFfh.Task.ConfigSafety
import LeapSyncFfh.Task.Geometry
import LeapSyncFfh.Task.Divisions
import LeapSyncFfh.Task.Idempotence
import LeapSyncFfh.Task.Console
import LeapSyncFfh.Common.RingBuffer
import LeapSyncFfh.Common.Resizing
import LeapSyncFfh.Leap.Devices
import LeapSyncFfh.Ffh.HandData
import LeapSyncFfh.Leap.Angles
import LeapSyncFfh.Common.Turns
import LeapSyncFfh.Common.Termination
import LeapSyncFfh.Common.Blocking
import LeapSyncFfh.Task.Control
import LeapSyncFfh.Task.Quit
import LeapSyncFfh.Leap.Allocations
import LeapSyncFfh.Task.TestFfh
import LeapSyncFfh.Task.ByHand
import LeapSyncFfh.Task.Camera
import LeapSyncFfh.Lib.Accounts
import LeapSyncFfh.Task.Datagrams
import LeapSyncFfh.Lib.Join
import LeapSyncFfh.Official.FrameHistory
import LeapSyncFfh.Official.ConfigValues
import LeapSyncFfh.Lib.Told
import LeapSyncFfh.Official.Listeners
