import FogNet.Text.Search
import FogNet.Numeric.Truncation
import FogNet.Matching.Greedy
import FogNet.Matching.FirstFit
import FogNet.Matching.Stable
import FogNet.Matching.Assign
import FogNet.Matching.Updates
import FogNet.Kernel.NamedArray
import FogNet.Kernel.Wires
import FogNet.Kernel.Routes
import FogNet.Kernel.Runs
import FogNet.Kernel.Agenda
import FogNet.Kernel.EventSet
import FogNet.Kernel.Objects
import FogNet.Network.Devices
import FogNet.Network.FogNetwork
import FogNet.Plan.Encoding
import FogNet.Plan.Decoding
import FogNet.Plan.RoundTrip
import FogNet.Plan.Safety
import FogNet.Links.Delivery
import FogNet.Results.Duplication
import FogNet.Coordinator.Problem
import FogNet.Coordinator.Selection
import FogNet.Coordinator.FirstFit
import FogNet.Coordinator.Rounds
import FogNet.Coordinator.Stability
import FogNet.System.Handlers
import FogNet.System.IdlePairs
import FogNet.System.Steps
import FogNet.System.Reactions
import FogNet.System.KeptPairs
import FogNet.System.LinkInvariant
import FogNet.System.Participants
import FogNet.System.IndexRanges
import FogNet.System.StaleLinks
import FogNet.System.Jobs
import FogNet.System.Simulation
import FogNet.System.Ratio
import FogNet.System.Windows
import FogNet.System.Journal
import FogNet.System.Timers
import FogNet.System.EventRate
import FogNet.System.Reporting
import FogNet.System.Nearness
import FogNet.System.Instants
import FogNet.System.AtomicRounds
import FogNet.System.OnePlan
import FogNet.System.Convergence
import FogNet.System.Priority
import FogNet.System.SharedArea
import FogNet.System.FreshLinks
import FogNet.System.Channels
import FogNet.System.StoreOrder
import FogNet.System.FixedPlan
import FogNet.System.Topology
