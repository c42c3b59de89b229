import OsfMach.Ipc.SplayBounds
import OsfMach.Ipc.BlockedRing
import OsfMach.Ipc.PortSetOrder
import OsfMach.Ipc.Transit
import OsfMach.Vm.CopyIsolation
import OsfMach.Device.NetFilterSafety
import OsfMach.Kern.SemaphoreWaits
import OsfMach.Kern.LockSetRuns
import OsfMach.Kern.ZoneInit
import OsfMach.Kern.ZoneGcExact
import OsfMach.Kern.ZgetSpace
import OsfMach.Kern.SemaphoreTicks
import OsfMach.Pager.GateRuns
import OsfMach.Ipc.LocalHash
import OsfMach.Kern.ClockRuns
import OsfMach.Kern.CheckTime
import OsfMach.Ipc.KmsgBounds
import OsfMach.Ipc.ReceiveBounds
import OsfMach.Ipc.KmsgQueued
import OsfMach.Ipc.DnGrow
import OsfMach.Ipc.RenameRuns
import OsfMach.Ipc.PortLocksRuns
import OsfMach.Ipc.KmsgRtRuns
import OsfMach.Vm.CopyinSource
import OsfMach.Vm.RemapRuns
import OsfMach.Ipc.RightsRuns
import OsfMach.Pager.AddSegment
import OsfMach.Pager.DataInitialize
import OsfMach.Vm.Lookup
import OsfMach.Kern.SyncQueue
