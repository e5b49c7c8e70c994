import OfTestbed.LibLoop
import OfTestbed.LibDict
import OfTestbed.LibGroup
import OfTestbed.SimulatorCore
import OfTestbed.Attackers
import OfTestbed.Simulator
import OfTestbed.SimulatorOrder
import OfTestbed.SimulatorOrderStep
import OfTestbed.SimulatorReachable
import OfTestbed.AttackersCapture
import OfTestbed.AttackersRecovery
import OfTestbed.AttackersSchedule
import OfTestbed.SimulatorScenario
import OfTestbed.SimulatorInvariant
import OfTestbed.SimulatorPhases
import OfTestbed.LibWorklist
import OfTestbed.FlowAllocationMcf
import OfTestbed.FlowAllocationRoutes
import OfTestbed.FlowAllocationCut
import OfTestbed.FlowAllocationRealise
import OfTestbed.FlowAllocationKPaths
import OfTestbed.FlowAllocationAllocators
import OfTestbed.LibText
import OfTestbed.PortMirroringFlow
import OfTestbed.MpRoutingTrial
import OfTestbed.LibDefaultDict
import OfTestbed.LibFloatText
import OfTestbed.MirroringSolutions
import OfTestbed.MirroringTrials
import OfTestbed.UtilizationResults
import OfTestbed.LinkUtilization
import OfTestbed.RoutingTags
import OfTestbed.TuitiTrial
import OfTestbed.ResultsRepository
import OfTestbed.TuitiRates
import OfTestbed.TraceAttackers
import OfTestbed.FlowAllocationGreedy
import OfTestbed.FlowAllocationIlp
import OfTestbed.FlowAllocationIlpRuns
import OfTestbed.FlowAllocationIlpUtilization
import OfTestbed.FlowAllocationMcfRuns
import OfTestbed.FlowAllocationCompare
import OfTestbed.AttackersPlanned
import OfTestbed.AttackersPlannedRounds
import OfTestbed.MirroringRecords
import OfTestbed.MirroringNetwork
import OfTestbed.MirroringVerify
import OfTestbed.MirroringPhysical
import OfTestbed.LinkUtilizationMean
import OfTestbed.TrafficGenDraws
import OfTestbed.EndHostResults
import OfTestbed.CoreTaps
import OfTestbed.MininetBenchmarks
import OfTestbed.LibTry
import OfTestbed.TraceSynchronization
import OfTestbed.TrialCleanup
import OfTestbed.LibParallel
import OfTestbed.SimulatorParallel
import OfTestbed.LibLiteral
import OfTestbed.MpRoutingFiles
import OfTestbed.MininetHost
import OfTestbed.LibEmit
import OfTestbed.LibPacing
import OfTestbed.TrafficGenTransmit
import OfTestbed.TrafficLoss
import OfTestbed.LibFiles
import OfTestbed.RepositoryFiles
import OfTestbed.VirtualHosts
import OfTestbed.VirtualHostsTrials
import OfTestbed.LibTable
import OfTestbed.PortMonitor
import OfTestbed.PortStatistics
import OfTestbed.LibNxGraph
import OfTestbed.TopoMapper
import OfTestbed.LibWindows
import OfTestbed.ShareIntervals
import OfTestbed.AttackersRuns
import OfTestbed.SimulatorTrials
