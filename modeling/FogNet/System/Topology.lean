import FogNet.Kernel.Routes
import FogNet.System.Timers

namespace FogNetModel

open Kernel

/-- The gates of the hosts, of their coordinators, and of the two gate vectors of the centralized
    coordinator. -/
inductive ModuleGate where
  | hostSync (device : Device)
  | hostAction (device : Device)
  | localSync (device : Device)
  | localAction (device : Device)
  | sync (index : Nat)
  | action (index : Nat)
  deriving DecidableEq, Repr

/-- The connections made so far, with the sizes of the two gate vectors. -/
structure Wiring where
  connections : List (Connection ModuleGate)
  syncSize : Nat
  actionSize : Nat

def syncConnection (device : Device) (index : Nat) : Connection ModuleGate :=
  ⟨.hostSync device, .sync index, channelDelay⟩

def actionConnection (device : Device) (index : Nat) : Connection ModuleGate :=
  ⟨.action index, .hostAction device, channelDelay⟩

namespace Wiring

def connectSync (wiring : Wiring) (device : Device) : Wiring where
  connections := wiring.connections ++ [syncConnection device wiring.syncSize]
  syncSize := wiring.syncSize + 1
  actionSize := wiring.actionSize

def connectAction (wiring : Wiring) (device : Device) : Wiring where
  connections := wiring.connections ++ [actionConnection device wiring.actionSize]
  syncSize := wiring.syncSize
  actionSize := wiring.actionSize + 1

/-- The two loops over a vector of hosts. -/
def connectHosts (wiring : Wiring) (hosts : List Device) : Wiring :=
  hosts.foldl connectAction (hosts.foldl connectSync wiring)

end Wiring

/-- The connections inside a host, without delay. -/
def CoordinatedHost.connections (device : Device) : List (Connection ModuleGate) :=
  [⟨.hostAction device, .localAction device, 0⟩, ⟨.localSync device, .hostSync device, 0⟩]

namespace FogNetwork

def wiring (net : FogNetwork) : Wiring :=
  [vector .mobileHost net.numHosts, vector .fogHost net.numFogHosts,
    vector .cloudHost net.numCloudHosts].foldl Wiring.connectHosts ⟨[], 0, 0⟩

def connections (net : FogNetwork) : List (Connection ModuleGate) :=
  net.wiring.connections ++ net.hosts.flatMap CoordinatedHost.connections

end FogNetwork

/-- What the declared connections make of the gates of the coordinators. -/
structure Routed (net : FogNetwork) : Prop where
  syncSize : net.wiring.syncSize = net.numHosts + net.numFogHosts + net.numCloudHosts
  actionSize : net.wiring.actionSize = net.numHosts + net.numFogHosts + net.numCloudHosts
  apart : OneToOne net.connections
  actions : ∀ index < net.wiring.actionSize, ∃ device, net.Holds device ∧ ∀ delay target,
    Leads net.connections (.action index) delay target ↔
      delay = channelDelay ∧ target = .localAction device
  reached : ∀ device, net.Holds device → ∃ index < net.wiring.actionSize,
    Leads net.connections (.action index) channelDelay (.localAction device) ∧ ∀ other delay,
      Leads net.connections (.action other) delay (.localAction device) → other = index
  reports : ∀ device, net.Holds device → ∃ index < net.wiring.syncSize, ∀ delay target,
    Leads net.connections (.localSync device) delay target ↔ delay = channelDelay ∧ target = .sync index

/-- The messages of one event leave and arrive as the connections say: a report at a `sync` gate, and
    the i-th action message of a round at the coordinator that the gate `action[i]` leads to. -/
structure OverWiring (net : FogNetwork) (moment : Moment) : Prop where
  report : ∀ delay ctx, (delay, .message (.sync ctx)) ∈ moment.reaction.scheduled →
    ∃ device, ∃ index < net.wiring.syncSize, moment.event = .localTick device ∧
      ctx = device.report moment.met ∧ Leads net.connections (.localSync device) delay (.sync index)
  plan : ∀ names, .planSent names ∈ moment.reaction.trace → ∃ (text : List Char) (devices : List Device),
    moment.reaction.scheduled = (moment.choice.interval, .coordinatorTick) ::
      devices.map (fun device => (channelDelay, .message (.action device text))) ∧
    devices.length = net.wiring.actionSize ∧ ∀ index device, devices[index]? = some device ↔
      Leads net.connections (.action index) channelDelay (.localAction device)

end FogNetModel

namespace FogNetProof.Names

open FogNetModel Kernel

theorem connectSync_all (wiring : Wiring) (hosts : List Device) :
    hosts.foldl Wiring.connectSync wiring =
      ⟨wiring.connections ++ connectNext syncConnection wiring.syncSize hosts,
        wiring.syncSize + hosts.length, wiring.actionSize⟩ := by
  induction hosts using List.reverseRecOn with
  | nil => simp [connectNext]
  | append_singleton hosts device ih =>
    rw [List.foldl_append, ih, connectNext_snoc, ← List.append_assoc, List.length_append]
    rfl

theorem connectAction_all (wiring : Wiring) (hosts : List Device) :
    hosts.foldl Wiring.connectAction wiring =
      ⟨wiring.connections ++ connectNext actionConnection wiring.actionSize hosts, wiring.syncSize,
        wiring.actionSize + hosts.length⟩ := by
  induction hosts using List.reverseRecOn with
  | nil => simp [connectNext]
  | append_singleton hosts device ih =>
    rw [List.foldl_append, ih, connectNext_snoc, ← List.append_assoc, List.length_append]
    rfl

theorem connectHosts_eq (wiring : Wiring) (hosts : List Device) :
    wiring.connectHosts hosts =
      ⟨wiring.connections ++ connectNext syncConnection wiring.syncSize hosts ++
          connectNext actionConnection wiring.actionSize hosts,
        wiring.syncSize + hosts.length, wiring.actionSize + hosts.length⟩ := by
  rw [Wiring.connectHosts, connectSync_all, connectAction_all]

variable {net : FogNetwork}

theorem wiring_sizes (net : FogNetwork) :
    net.wiring.syncSize = net.actionGates.length ∧ net.wiring.actionSize = net.actionGates.length := by
  simp [FogNetwork.wiring, connectHosts_eq, actionGates_length, vector]

theorem mem_wiring {connection : Connection ModuleGate} :
    connection ∈ net.wiring.connections ↔ ∃ index device, net.actionGates[index]? = some device ∧
      (connection = syncConnection device index ∨ connection = actionConnection device index) := by
  have split : connection ∈ net.wiring.connections ↔
      connection ∈ connectNext syncConnection 0 net.actionGates ∨
        connection ∈ connectNext actionConnection 0 net.actionGates := by
    simp only [FogNetwork.wiring, List.foldl_cons, List.foldl_nil, connectHosts_eq, FogNetwork.actionGates,
      connectNext_append, List.nil_append, List.mem_append, Nat.zero_add, List.length_append]
    tauto
  rw [split, mem_connectNext, mem_connectNext]
  constructor
  · rintro (⟨index, device, stands, rfl⟩ | ⟨index, device, stands, rfl⟩)
    · exact ⟨index, device, stands, Or.inl rfl⟩
    · exact ⟨index, device, stands, Or.inr rfl⟩
  · rintro ⟨index, device, stands, rfl | rfl⟩
    · exact Or.inl ⟨index, device, stands, rfl⟩
    · exact Or.inr ⟨index, device, stands, rfl⟩

/-- The four kinds of connections of the network. -/
theorem mem_connections {connection : Connection ModuleGate} :
    connection ∈ net.connections ↔
      (∃ index device, net.actionGates[index]? = some device ∧
        (connection = syncConnection device index ∨ connection = actionConnection device index)) ∨
      ∃ device, net.Holds device ∧ (connection = ⟨.hostAction device, .localAction device, 0⟩ ∨
        connection = ⟨.localSync device, .hostSync device, 0⟩) := by
  rw [FogNetwork.connections, List.mem_append, mem_wiring, List.mem_flatMap]
  simp only [mem_hosts, CoordinatedHost.connections, List.mem_cons, List.not_mem_nil, or_false]

theorem gate_unique {left right : Nat} {device other : Device}
    (isLeft : net.actionGates[left]? = some device) (isRight : net.actionGates[right]? = some other)
    (shared : device = other ∨ left = right) : device = other ∧ left = right := by
  rcases shared with rfl | rfl
  · obtain ⟨bound, _⟩ := List.getElem?_eq_some_iff.mp isLeft
    exact ⟨rfl, (List.getElem?_inj bound (actionGates_nodup net)).mp (isLeft.trans isRight.symm)⟩
  · exact ⟨Option.some.inj (isLeft.symm.trans isRight), rfl⟩

theorem connections_oneToOne (net : FogNetwork) : OneToOne net.connections := by
  intro left inLeft right inRight shared
  rcases mem_connections.mp inLeft with ⟨i, device, stands, rfl | rfl⟩ | ⟨device, held, rfl | rfl⟩ <;>
    rcases mem_connections.mp inRight with ⟨j, other, otherStands, rfl | rfl⟩ | ⟨other, otherHeld, rfl | rfl⟩
  all_goals simp only [syncConnection, actionConnection, ModuleGate.hostSync.injEq, ModuleGate.sync.injEq,
    ModuleGate.hostAction.injEq, ModuleGate.action.injEq, ModuleGate.localAction.injEq,
    ModuleGate.localSync.injEq, reduceCtorEq, or_self] at shared
  · obtain ⟨rfl, rfl⟩ := gate_unique stands otherStands shared
    rfl
  · obtain ⟨rfl, rfl⟩ := gate_unique stands otherStands shared.symm
    rfl
  · rw [shared]
  · rw [shared]

/-- No connection leaves the gates at which messages arrive. -/
theorem arrival_last {gate : ModuleGate}
    (arrives : (∃ device, gate = .localAction device) ∨ ∃ index, gate = .sync index) :
    ∀ connection ∈ net.connections, connection.source ≠ gate := by
  intro connection member
  rcases mem_connections.mp member with ⟨i, device, stands, rfl | rfl⟩ | ⟨device, held, rfl | rfl⟩ <;>
    rcases arrives with ⟨other, rfl⟩ | ⟨index, rfl⟩ <;> simp [syncConnection, actionConnection]

theorem action_leads {index : Nat} {device : Device} (stands : net.actionGates[index]? = some device) :
    Leads net.connections (.action index) channelDelay (.localAction device) := by
  have held := mem_actionGates.mp (List.mem_of_getElem? stands)
  have outer := mem_connections.mpr (Or.inl ⟨index, device, stands, Or.inr rfl⟩)
  have inner := mem_connections.mpr (Or.inr ⟨device, held, Or.inl rfl⟩)
  have last : Leads net.connections (.localAction device) 0 (.localAction device) :=
    Leads.here (arrival_last (Or.inl ⟨device, rfl⟩))
  have route := Leads.across outer (Leads.across inner last)
  rw [Nat.add_zero] at route
  exact route

theorem sync_leads {index : Nat} {device : Device} (stands : net.actionGates[index]? = some device) :
    Leads net.connections (.localSync device) channelDelay (.sync index) := by
  have held := mem_actionGates.mp (List.mem_of_getElem? stands)
  have outer := mem_connections.mpr (Or.inl ⟨index, device, stands, Or.inl rfl⟩)
  have inner := mem_connections.mpr (Or.inr ⟨device, held, Or.inr rfl⟩)
  have last : Leads net.connections (.sync index) 0 (.sync index) :=
    Leads.here (arrival_last (Or.inr ⟨index, rfl⟩))
  have route := Leads.across inner (Leads.across outer last)
  rw [Nat.add_zero, Nat.zero_add] at route
  exact route

theorem action_bound {index : Nat} {device : Device} (stands : net.actionGates[index]? = some device) :
    index < net.wiring.actionSize := by
  rw [(wiring_sizes net).2]
  exact (List.getElem?_eq_some_iff.mp stands).1

theorem sync_gate {device : Device} (held : net.Holds device) :
    ∃ index < net.wiring.syncSize, net.actionGates[index]? = some device := by
  obtain ⟨index, stands⟩ := List.mem_iff_getElem?.mp (mem_actionGates.mpr held)
  refine ⟨index, ?_, stands⟩
  rw [(wiring_sizes net).1]
  exact (List.getElem?_eq_some_iff.mp stands).1

theorem gate_of_bound {index : Nat} (bound : index < net.wiring.actionSize) :
    ∃ device, net.actionGates[index]? = some device ∧ net.Holds device := by
  rw [(wiring_sizes net).2] at bound
  have stands := List.getElem?_eq_getElem bound
  exact ⟨_, stands, mem_actionGates.mp (List.mem_of_getElem? stands)⟩

theorem action_source {index : Nat} {delay : Nat} {device : Device}
    (route : Leads net.connections (.action index) delay (.localAction device)) :
    net.actionGates[index]? = some device ∧ delay = channelDelay := by
  generalize start : ModuleGate.action index = gate at route
  generalize finish : ModuleGate.localAction device = target at route
  cases route with
  | here last =>
    rw [← start] at finish
    cases finish
  | across member rest =>
    rcases mem_connections.mp member with ⟨i, other, stands, rfl | rfl⟩ | ⟨other, held, rfl | rfl⟩
    · cases start
    · cases start
      have known := action_leads stands
      have taken := Leads.across member rest
      obtain ⟨delays, targets⟩ := taken.unique (connections_oneToOne net) known
      rw [← finish] at targets
      cases targets
      exact ⟨stands, delays⟩
    · cases start
    · cases start

/-- Every `action` gate leads to the coordinator of one host, every host has one such gate, and the
    report of every host arrives at a `sync` gate, all after the delay of one channel. -/
theorem wiring_routes (net : FogNetwork) : Routed net where
  syncSize := (wiring_sizes net).1.trans (actionGates_length net)
  actionSize := (wiring_sizes net).2.trans (actionGates_length net)
  apart := connections_oneToOne net
  actions := by
    intro index bound
    obtain ⟨device, stands, held⟩ := gate_of_bound bound
    refine ⟨device, held, fun delay target => ⟨fun route => ?_, ?_⟩⟩
    · exact route.unique (connections_oneToOne net) (action_leads stands)
    · rintro ⟨rfl, rfl⟩
      exact action_leads stands
  reached := by
    intro device held
    obtain ⟨index, stands⟩ := List.mem_iff_getElem?.mp (mem_actionGates.mpr held)
    refine ⟨index, action_bound stands, action_leads stands, fun other delay route => ?_⟩
    exact (gate_unique (action_source route).1 stands (Or.inl rfl)).2
  reports := by
    intro device held
    obtain ⟨index, bound, stands⟩ := sync_gate held
    refine ⟨index, bound, fun delay target => ⟨fun route => ?_, ?_⟩⟩
    · exact route.unique (connections_oneToOne net) (sync_leads stands)
    · rintro ⟨rfl, rfl⟩
      exact sync_leads stands

end FogNetProof.Names

namespace FogNetProof.Runs

open FogNetModel Kernel FogNetProof.Names FogNetProof.Plans

variable {net : FogNetwork}

/-- Along a timed run the modules send as the network is wired. -/
theorem messages_follow_wiring {position : Device → Coord} {moments : List Moment} {sim : Simulation}
    (run : TimedRun net position moments sim) : ∀ moment ∈ moments, OverWiring net moment := by
  intro moment member
  have handled := run_handled run moment member
  constructor
  · intro delay ctx scheduled
    have asks := handle_asks handled _ scheduled
    generalize event : moment.event = timer at asks
    cases asks with
    | again isTimer => cases isTimer
    | @report device mobile =>
      have running := run_timers run moment member (by rw [event]; rfl)
      rw [event] at running
      obtain ⟨index, bound, stands⟩ := sync_gate running
      exact ⟨device, index, bound, rfl, rfl, sync_leads stands⟩
  · intro names sent
    obtain ⟨_, _, selection, _, _, scheduled⟩ := handle_planned handled sent
    refine ⟨selection.coordinationResultsStr, net.actionGates, scheduled, (wiring_sizes net).2.symm, ?_⟩
    intro index device
    exact ⟨action_leads, fun route => (action_source route).1⟩

theorem messages_follow_wiring_opening :
    ∃ moments sim round names, TimedRun (.ofSizes 1 1 1) (fun _ => ⟨0, 0⟩) moments sim ∧ round ∈ moments ∧
      .planSent names ∈ round.reaction.trace ∧ OverWiring (.ofSizes 1 1 1) round := by
  have shown : opened (fun run => decide (∃ round ∈ run.1, .planSent
      [fullNames (⟨.mobileHost, 0⟩, ⟨.fogHost, 0⟩)] ∈ round.reaction.trace)) = some true := by decide +kernel
  obtain ⟨moments, sim, run, _, _, checked⟩ := opening_run shown
  obtain ⟨round, member, sent⟩ : ∃ round ∈ moments, .planSent
      [fullNames (⟨.mobileHost, 0⟩, ⟨.fogHost, 0⟩)] ∈ round.reaction.trace := of_decide_eq_true checked
  exact ⟨moments, sim, round, _, run, member, sent, messages_follow_wiring run round member⟩

end FogNetProof.Runs
