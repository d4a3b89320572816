import FogNet.System.Channels

namespace FogNetModel

open Kernel

def Submodule.mobile : Submodule → Option Device
  | .host device => if device.Mobile then some device else none
  | .centralizedCoordinator => none

/-- The mobile hosts in the order in which they are initialized. -/
def FogNetwork.mobileHosts (net : FogNetwork) : List Device := net.submodules.filterMap Submodule.mobile

/-- The mobile host that reports at an event. -/
def Event.reporter : Event → Option Device
  | .localTick device => if device.Mobile then some device else none
  | _ => none

def isSync : Message → Bool
  | .sync _ => true
  | _ => false

def Message.reporter : Message → Option (List Char)
  | .sync ctx => some ctx.device
  | _ => none

def reporters (sent : List (Nat × Message)) : List (List Char) := sent.filterMap fun arrival => arrival.2.reporter

end FogNetModel

namespace FogNetProof.Runs

open FogNetModel FogNetModel.CentralizedCoordinator Kernel FogNetProof.Names FogNetProof.Plans
  FogNetProof.Rounds

variable {net : FogNetwork} {position : Device → Coord} {moments : List Moment} {sim : Simulation}

theorem mobile_eq_some {submodule : Submodule} {device : Device} :
    submodule.mobile = some device ↔ submodule = .host device ∧ device.Mobile := by
  cases submodule with
  | host other =>
    simp only [Submodule.mobile, Option.ite_none_right_eq_some, Option.some.injEq, Submodule.host.injEq]
    constructor
    · intro found
      exact ⟨found.2, found.2 ▸ found.1⟩
    · intro found
      exact ⟨found.1.symm ▸ found.2, found.1⟩
  | centralizedCoordinator => simp [Submodule.mobile]

theorem mem_mobileHosts {device : Device} :
    device ∈ net.mobileHosts ↔ net.Holds device ∧ device.Mobile := by
  simp [FogNetwork.mobileHosts, mobile_eq_some, mem_submodules]

theorem mobileHosts_nodup (net : FogNetwork) : net.mobileHosts.Nodup := by
  apply List.Nodup.filterMap _ (submodules_nodup net)
  intro left right device first second
  rw [Option.mem_def, mobile_eq_some] at first second
  rw [first.1, second.1]

theorem mobileHosts_perm (net : FogNetwork) : net.mobileHosts.Perm (vector .mobileHost net.numHosts) := by
  apply (List.perm_ext_iff_of_nodup (mobileHosts_nodup net) (vector_nodup _ _)).mpr
  intro device
  obtain ⟨kind, index⟩ := device
  cases kind <;> simp [mem_mobileHosts, FogNetwork.Holds, FogNetwork.size, Device.Mobile]

theorem reporter_eq_some {event : Event} {device : Device} :
    event.reporter = some device ↔ event = .localTick device ∧ device.Mobile := by
  cases event with
  | localTick other =>
    simp only [Event.reporter, Option.ite_none_right_eq_some, Option.some.injEq, Event.localTick.injEq]
    constructor
    · intro found
      exact ⟨found.2, found.2 ▸ found.1⟩
    · intro found
      exact ⟨found.1.symm ▸ found.2, found.1⟩
  | sourceTick | coordinatorTick | message => simp [Event.reporter]

theorem initial_reporters (net : FogNetwork) :
    (net.initialEvents.map Prod.snd).filterMap Event.reporter = net.mobileHosts := by
  have events : net.initialEvents.map Prod.snd = net.submodules.flatMap Submodule.initializeTimers := by
    simp [FogNetwork.initialEvents, Function.comp_def]
  rw [events, List.filterMap_flatMap, FogNetwork.mobileHosts, List.filterMap_eq_flatMap_toList]
  apply List.flatMap_congr
  intro submodule _
  cases submodule with
  | host device =>
    by_cases mobile : device.Mobile <;>
      simp [Submodule.initializeTimers, Event.reporter, Submodule.mobile, mobile, List.filterMap_cons]
  | centralizedCoordinator => rfl

/-- The first events are those of the initialization, in its order. -/
theorem run_opens (run : TimedRun net position moments sim) :
    moments.map Moment.entry ++ sim.events =
      net.initialEvents ++ agenda (moments.flatMap Moment.asked) := by
  rw [(run_accounted run).order, FogNetwork.asked, agenda_append (initialEvents_chronological net)]
  intro entry member other _
  rw [initialEvents_now net entry member]
  exact Nat.zero_le _

theorem timer_held (run : TimedRun net position moments sim) {entry : Nat × Event}
    (member : entry ∈ moments.map Moment.entry ++ sim.events) (isTimer : entry.2.toMessage = none) :
    net.Timer entry.2 := by
  rcases List.mem_append.mp member with handled | waiting
  · obtain ⟨moment, isMoment, rfl⟩ := List.mem_map.mp handled
    exact run_timers run moment isMoment isTimer
  · exact run_owned run entry waiting isTimer

/-- Every mobile host reports once before any reports again. -/
theorem reporters_prefix (run : TimedRun net position moments sim) :
    ∃ rest, (moments.filterMap fun moment => moment.event.reporter) <+: net.mobileHosts ++ rest ∧
      ∀ device ∈ rest, device ∈ net.mobileHosts := by
  have opens := run_opens run
  refine ⟨((agenda (moments.flatMap Moment.asked)).map Prod.snd).filterMap Event.reporter, ?_, ?_⟩
  · have whole := congrArg (fun entries => (entries.map Prod.snd).filterMap Event.reporter) opens
    simp only [List.map_append, List.filterMap_append, initial_reporters] at whole
    rw [← whole, List.map_map, List.filterMap_map]
    exact List.prefix_append _ _
  · intro device member
    obtain ⟨event, asked, isReporter⟩ := List.mem_filterMap.mp member
    obtain ⟨rfl, mobile⟩ := reporter_eq_some.mp isReporter
    obtain ⟨entry, inAgenda, isEvent⟩ := List.mem_map.mp asked
    have known : entry ∈ moments.map Moment.entry ++ sim.events := by
      rw [opens]
      exact List.mem_append_right _ inAgenda
    have running := timer_held run known (by rw [isEvent]; rfl)
    rw [isEvent] at running
    exact mem_mobileHosts.mpr ⟨running, mobile⟩

theorem reporters_filter (sent : List (Nat × Message)) :
    reporters (sent.filter fun arrival => isSync arrival.2) = reporters sent := by
  rw [reporters, reporters, List.filterMap_filter]
  apply List.filterMap_congr
  intro arrival _
  cases arrival.2 <;> rfl

theorem reporters_append (left right : List (Nat × Message)) :
    reporters (left ++ right) = reporters left ++ reporters right := List.filterMap_append

theorem reporters_sent (run : TimedRun net position moments sim) :
    reporters (moments.flatMap Moment.sent) =
      (moments.filterMap fun moment => moment.event.reporter).map Device.getFullName := by
  rw [reporters, List.filterMap_flatMap, List.map_filterMap, List.filterMap_eq_flatMap_toList]
  apply List.flatMap_congr
  intro moment member
  have reacts := handle_reacts (run_handled run moment member)
  unfold Moment.sent
  generalize moment.reaction = reaction at reacts ⊢
  generalize moment.event = event at reacts ⊢
  cases reacts with
  | @reported device mobile =>
    simp [Reaction.messages, Event.toMessage, Message.reporter, Event.reporter, mobile, Device.report]
  | @silent device immobile =>
    simp [Reaction.messages, Event.toMessage, Event.reporter, immobile]
  | @planned selection =>
    rw [Reaction.messages, List.filterMap_cons_none rfl, messages_actions]
    simp [Message.reporter, Event.reporter]
  | sent => rfl
  | asleep | attempted | gaveUp | waiting | unsolved | stored | rewired | received | forwarded => rfl

theorem reporters_arrived (moments : List Moment) :
    reporters (arrivals (moments.map Moment.entry)) =
      (moments.filterMap fun moment => moment.event.toReport).map ContextSync.device := by
  rw [reporters, arrivals, List.filterMap_map, List.filterMap_filterMap, List.map_filterMap]
  apply List.filterMap_congr
  intro moment _
  simp only [Function.comp_apply, Moment.entry]
  cases moment.event with
  | message content => cases content <;> rfl
  | sourceTick | localTick | coordinatorTick => rfl

/-- The store lists the mobile hosts in the order of their initialization, from the first on and without
    gaps, whatever the intervals. -/
theorem store_ordered (run : TimedRun net position moments sim) :
    sim.state.participant.map SavedMsg.name <+: net.mobileHosts.map Device.getFullName := by
  have oneDelay : ∀ content, isSync content = true → content.delay = channelDelay := by
    intro content sync
    cases content with
    | sync => rfl
    | action | job => cases sync
  have fifo := congrArg reporters (lane_fifo run oneDelay)
  rw [reporters_filter, reporters_sent run, onLane, reporters_append, reporters_filter, reporters_filter,
    reporters_arrived] at fifo
  obtain ⟨rest, reported, again⟩ := reporters_prefix run
  have arrived : (moments.filterMap fun moment => moment.event.toReport).map ContextSync.device <+:
      net.mobileHosts.map Device.getFullName ++ rest.map Device.getFullName := by
    rw [← List.map_append]
    exact (fifo ▸ List.prefix_append _ _).trans (reported.map Device.getFullName)
  have covered : ∀ name ∈ rest.map Device.getFullName, name ∈ net.mobileHosts.map Device.getFullName := by
    intro name member
    obtain ⟨device, isRest, rfl⟩ := List.mem_map.mp member
    exact List.mem_map_of_mem (again device isRest)
  rw [(run_participant run).2, (stored_lastReports _).order]
  exact eraseDups_prefix ((mobileHosts_nodup net).map getFullName_injective) covered arrived

theorem mobileHosts_length (net : FogNetwork) : net.mobileHosts.length = net.numHosts := by
  simp [(mobileHosts_perm net).length_eq, vector]

theorem met_order {before after : Simulation} {moment : Moment} (run : TimedRun net position moments before)
    (handles : before.Handles net moment after) (full : moment.met.participant.length = net.numHosts) :
    moment.met.participant.map SavedMsg.name = net.mobileHosts.map Device.getFullName := by
  rw [met_participant handles] at full ⊢
  apply (store_ordered run).eq_of_length
  rw [List.length_map, List.length_map, mobileHosts_length, full]

/-- An index of a mobile host means the same one in all rounds. -/
theorem store_in_order (run : TimedRun net position moments sim) :
    ∀ moment ∈ moments,
      moment.met.participant.map SavedMsg.name <+: net.mobileHosts.map Device.getFullName ∧
      (moment.met.participant.length = net.numHosts →
        (moment.met.problem net).aHosts = net.mobileHosts.map Device.getFullName) := by
  intro moment member
  obtain ⟨_, _, before, after, _, first, handles⟩ := run_handles run member
  have registered := (met_wellformed first handles).registered
  refine ⟨met_participant handles ▸ store_ordered first, fun full => ?_⟩
  have named : (moment.met.problem net).aHosts = moment.met.participant.map SavedMsg.name :=
    List.map_congr_left fun saved stored => (registered.named saved stored).symm
  rw [named, met_order first handles full]

theorem store_in_order_opening :
    ∃ moments sim round, TimedRun (.ofSizes 1 1 1) (fun _ => ⟨0, 0⟩) moments sim ∧ round ∈ moments ∧
      round.met.participant.length = 1 ∧
      (round.met.problem (.ofSizes 1 1 1)).aHosts = [Device.getFullName ⟨.mobileHost, 0⟩] := by
  have shown : opened (fun run => decide (∃ round ∈ run.1, round.met.participant.length = 1)) = some true := by
    decide +kernel
  obtain ⟨moments, sim, run, _, _, checked⟩ := opening_run shown
  obtain ⟨round, member, full⟩ := of_decide_eq_true checked
  exact ⟨moments, sim, round, run, member, full, (store_in_order run round member).2 full⟩

end FogNetProof.Runs
