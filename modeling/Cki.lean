import Cki.Outcome
import Cki.Run
import Cki.PageTable
import Cki.Walk
import Cki.Monitor
import Cki.MonitorRules
import Cki.MonitorRun
import Cki.MonitorMemory
import Cki.MonitorTyping
import Cki.MonitorLeaves
import Cki.MonitorFrame
import Cki.Marking
import Cki.MonitorInit
import Cki.MonitorLookups
import Cki.MonitorBoot
import Cki.Machine
import Cki.SwitchCode
import Cki.SwitchMacros
import Cki.SwitchRules
import Cki.SwitchTrips
import Cki.SwitchHost
import Cki.SwitchNesting
import Cki.VirtioNet
import Cki.VirtioRun
import Cki.VirtioNegotiation
import Cki.VirtioRings
import Cki.VirtioReset
import Cki.Start
import Cki.StartEvents
import Cki.StartResults
import Cki.StartWakeups
import Cki.Handshake
import Cki.StartSwitch
import Cki.FastRegisters
import Cki.MonitorRoots
import Cki.MonitorBlocks
import Cki.MonitorRange
import Cki.MonitorFaults
import Cki.MonitorEntries
import Cki.MonitorWalk
import Cki.MonitorDeclare
import Cki.MonitorRelease
import Cki.Ledger
import Cki.Create
import Cki.CreateAtomic
import Cki.CreateEnds
import Cki.CreatePcids
import Cki.Launcher
import Cki.LauncherRings
import Cki.LauncherFeatures
import Cki.LauncherRanges
import Cki.LoadImage
import Cki.Links
import Cki.Bytes
import Cki.Scan
import Cki.CreateWhole
import Cki.CreateReports
import Cki.CreateTables
import Cki.MonitorHooks
import Cki.Efds
import Cki.EfdsSteps
import Cki.EfdsHooks
import Cki.EfdsBalance
import Cki.Teardown
import Cki.StartAccesses
import Cki.StartReady
import Cki.VirtioReturns
import Cki.VirtioMemory
import Cki.Console
import Cki.MonitorGuest
import Cki.AddressSpace
import Cki.MonitorTables
import Cki.MonitorRefines
import Cki.MonitorNative
import Cki.Locks
import Cki.StartThreads
import Cki.LauncherThreads
import Cki.Calls
import Cki.Gates
import Cki.HostInterrupts
import Cki.GuestEvents
import Cki.GuestMmio
import Cki.Tlb
import Cki.SwitchCaches
import Cki.PcidIsolation
import Cki.StartMachine
import Cki.GuestOps
import Cki.CStrings
import Cki.CommandLine
import Cki.Boot
