import FogNet.System.SharedArea
import FogNet.System.StoreOrder

namespace FogNetModel

open CentralizedCoordinator Kernel

/-- The mobile hosts and the others, crosswise by their places in the order of the submodules. -/
def FogNetwork.fixedPlan (net : FogNetwork) : List (Device × Device) :=
  (crossedPairs net.numHosts (net.numFogHosts + net.numCloudHosts)).filterMap fun pair => do
    let sender ← net.mobileHosts[pair.1]?
    let receiver ← (bDevices net)[pair.2]?
    return (sender, receiver)

example : (FogNetwork.ofSizes 3 2 0).fixedPlan =
    [(⟨.mobileHost, 0⟩, ⟨.fogHost, 1⟩), (⟨.mobileHost, 1⟩, ⟨.fogHost, 0⟩)] := by decide

/-- The network has one plan for good: it is sent by every round, its links come and never go, and after
    the first round that surely passes its guard the ticks of the sources send along just these links. -/
structure PlanFixed (net : FogNetwork) (moments : List Moment) (sim : Simulation) (period : Nat) : Prop where
  sent : ∀ names, .planSent names ∈ sim.trace → names = net.fixedPlan.map fullNames
  planned : ∀ link ∈ linkSet sim.state.gates, link ∈ net.fixedPlan
  lasting : ∀ moment ∈ moments, linkSet moment.met.gates ⊆ linkSet sim.state.gates
  reached : channelDelay + period + channelDelay < sim.now →
    ∀ link ∈ net.fixedPlan, link ∈ linkSet sim.state.gates
  served : ∀ tick ∈ moments, channelDelay + period + channelDelay < tick.time → ∀ sender receiver,
    tick.event = .sourceTick sender →
      (.asentactual ⟨sender, receiver⟩ ∈ tick.reaction.trace ↔ (sender, receiver) ∈ net.fixedPlan)

end FogNetModel

namespace FogNetProof.Runs

open FogNetModel FogNetModel.CentralizedCoordinator Kernel FogNetProof.Names FogNetProof.Plans
  FogNetProof.Rounds

variable {net : FogNetwork} {position : Device → Coord} {moments : List Moment} {sim : Simulation}

theorem crossed_names {state : State} (registered : Registered net state.participant)
    (order : state.participant.map SavedMsg.name = net.mobileHosts.map Device.getFullName) :
    (crossedPairs net.numHosts (net.numFogHosts + net.numCloudHosts)).map (state.problem net).names =
      net.fixedPlan.map fullNames := by
  rw [FogNetwork.fixedPlan, List.map_filterMap, ← List.filterMap_eq_map]
  apply List.filterMap_congr
  intro pair member
  obtain ⟨aBound, bBound, _⟩ := mem_crossedPairs.mp member
  rw [← mobileHosts_length net] at aBound
  rw [← bDevices_length net] at bBound
  have senderAt := List.getElem?_eq_getElem aBound
  have receiverAt := List.getElem?_eq_getElem bBound
  have savedAt := congrArg (fun names => names[pair.1]?) order
  simp only [List.getElem?_map, senderAt, Option.map_some, Option.map_eq_some_iff] at savedAt
  obtain ⟨saved, stored, isName⟩ := savedAt
  have aName : (state.problem net).aName pair.1 = net.mobileHosts[pair.1].getFullName := by
    rw [← isName, registered.named saved (List.mem_of_getElem? stored)]
    exact aName_stored stored
  have bName : (state.problem net).bName pair.2 = (bDevices net)[pair.2].getFullName := bName_device receiverAt
  simp [senderAt, receiverAt, Problem.names, Matching.edgeOf, fullNames, aName, bName]

/-- At every event of a run in the area the hosts and all reports are there. -/
theorem met_area (inside : ∀ device, InArea (position device)) {before after : Simulation} {moment : Moment}
    (run : TimedRun net position moments before) (handles : before.Handles net moment after)
    (stays : StaysInArea moments) (stands : ∀ device, InArea (moment.met.position device)) :
    AreaKept { before.config with state := moment.met } := by
  have known := areaKept_run inside ((run_labels run).run (moments_stay stays))
  have permitted : staysInArea before.config (.move moment.met.position) := stands
  exact areaKept_effect known permitted (handles_effects run handles).1

theorem area_onePlan (inside : ∀ device, InArea (position device)) (run : TimedRun net position moments sim)
    (stays : StaysInArea moments) : OnePlan net moments (net.fixedPlan.map fullNames) := by
  intro round member _ passed
  obtain ⟨earlier, later, before, after, whole, first, handles⟩ := run_handles run member
  have earlierStays : StaysInArea earlier := fun moment old => stays moment (whole ▸ List.mem_append_left _ old)
  have known := met_area inside first handles earlierStays (stays round member)
  have plan : round.met.firstFitPlan net =
      (crossedPairs net.numHosts (net.numFogHosts + net.numCloudHosts)).map (round.met.problem net).names :=
    congrArg (List.map _) (area_directPlan known passed)
  rw [plan]
  exact crossed_names (met_wellformed first handles).registered (met_order first handles passed)

theorem fixedPlan_names {sender receiver : Device} :
    fullNames (sender, receiver) ∈ net.fixedPlan.map fullNames ↔ (sender, receiver) ∈ net.fixedPlan := by
  constructor
  · intro member
    obtain ⟨pair, planned, same⟩ := List.mem_map.mp member
    obtain ⟨isSender, isReceiver⟩ := Prod.mk.inj same
    have isPair : pair = (sender, receiver) :=
      Prod.ext (getFullName_injective isSender) (getFullName_injective isReceiver)
    exact isPair ▸ planned
  · exact List.mem_map_of_mem

/-- A tick sends a job along the link of its source, unless the peer is too far. -/
theorem tick_sends {before after : Simulation} {tick : Moment} {sender receiver : Device}
    (run : TimedRun net position moments before) (handles : before.Handles net tick after)
    (isTick : tick.event = .sourceTick sender)
    (near : ∀ peer, ¬ outOfReach (tick.met.position sender) (tick.met.position peer)) :
    .asentactual ⟨sender, receiver⟩ ∈ tick.reaction.trace ↔ (sender, receiver) ∈ linkSet tick.met.gates := by
  have handled := handles.handled
  rw [isTick] at handled
  have reacts := handle_reacts handled
  generalize tick.reaction = reaction at reacts
  cases reacts with
  | asleep immobile =>
    have unlinked : (sender, receiver) ∉ linkSet tick.met.gates := fun linked =>
      immobile (linked_hosts (met_wellformed run handles) linked).2.1
    simpa using unlinked
  | attempted _ unlinked => simp [linkSet, unlinked]
  | @gaveUp _ otherGate _ _ far => exact absurd far (near otherGate.device)
  | @sent _ otherGate _ linked =>
    obtain ⟨peer⟩ := otherGate
    simp [linkSet, linked, InGate.device, eq_comm]

section Links

variable (inside : ∀ device, InArea (position device)) (run : TimedRun net position moments sim)
  (stays : StaysInArea moments) (full : FullRounds net moments) {period : Nat}
  (prompt : ∀ moment ∈ moments, moment.event = .coordinatorTick → moment.choice.interval ≤ period)

include inside run stays full

theorem area_linked : ∀ link ∈ linkSet sim.state.gates, link ∈ net.fixedPlan := by
  intro link linked
  exact fixedPlan_names.mp (onePlan_linked run full (area_onePlan inside run stays) linked)

include prompt

theorem area_reached {now : Nat} (future : ∀ entry ∈ sim.events, now ≤ entry.1)
    (late : channelDelay + period + channelDelay < now) :
    ∀ link ∈ net.fixedPlan, link ∈ linkSet sim.state.gates := by
  intro link planned
  apply onePlan_reached run full (area_onePlan inside run stays) prompt future late
  · exact fixedPlan_names.mpr planned
  · intro moment member
    exact area_reach (stays moment member link.1) (stays moment member link.2)

/-- In the area of the shipped configurations the links are, after a while, those of one plan for good,
    however the hosts move. -/
theorem plan_fixed : PlanFixed net moments sim period := by
  have one := area_onePlan inside run stays
  have near : ∀ sender receiver, ∀ moment ∈ moments,
      ¬ outOfReach (moment.met.position sender) (moment.met.position receiver) :=
    fun sender receiver moment member => area_reach (stays moment member sender) (stays moment member receiver)
  have linked : ∀ moment ∈ moments, ∀ link ∈ linkSet moment.met.gates, link ∈ net.fixedPlan := by
    intro moment member
    obtain ⟨earlier, later, before, after, rfl, first, handles⟩ := run_handles run member
    rw [met_gates handles]
    apply area_linked inside first
    · exact fun old isOld => stays old (List.mem_append_left _ isOld)
    · exact fun old isOld => full old (List.mem_append_left _ isOld)
  have reached : ∀ moment ∈ moments, channelDelay + period + channelDelay < moment.time →
      ∀ link ∈ net.fixedPlan, link ∈ linkSet moment.met.gates := by
    intro moment member
    obtain ⟨earlier, later, before, after, rfl, first, handles⟩ := run_handles run member
    rw [met_gates handles]
    apply area_reached inside first _ _ _ (events_from first handles)
    · exact fun old isOld => stays old (List.mem_append_left _ isOld)
    · exact fun old isOld => full old (List.mem_append_left _ isOld)
    · exact fun old isOld => prompt old (List.mem_append_left _ isOld)
  refine ⟨fun names sent => onePlan_sent run full one sent, area_linked inside run stays full, ?_,
    area_reached inside run stays full prompt (run_accounted run).future, ?_⟩
  · intro moment member link isLink
    have planned := fixedPlan_names.mpr (linked moment member link isLink)
    exact link_lasts run (fun names sent => onePlan_sent run full one sent ▸ planned) (near _ _) moment member
      (Or.inl isLink)
  · intro tick member late sender receiver isTick
    obtain ⟨_, _, before, after, _, first, handles⟩ := run_handles run member
    rw [tick_sends first handles isTick fun peer => near sender peer tick member]
    exact ⟨linked tick member _, reached tick member late _⟩

end Links

theorem plan_fixed_opening :
    ∃ moments sim, TimedRun (.ofSizes 1 1 1) (fun _ => ⟨0, 0⟩) moments sim ∧
      channelDelay + 3 * channelDelay + channelDelay < sim.now ∧
      (FogNetwork.ofSizes 1 1 1).fixedPlan = [(⟨.mobileHost, 0⟩, ⟨.fogHost, 0⟩)] ∧
      PlanFixed (.ofSizes 1 1 1) moments sim (3 * channelDelay) := by
  have shown : opened (fun run => decide ((∀ moment ∈ run.1, moment.event = .coordinatorTick →
        moment.met.participant.length = 1 →
          satisfyingTable (moment.met.problem (.ofSizes 1 1 1)) = moment.choice.solutions) ∧
      (∀ moment ∈ run.1, moment.event = .coordinatorTick → moment.choice.interval ≤ 3 * channelDelay) ∧
      channelDelay + 3 * channelDelay + channelDelay < run.2.now)) = some true := by decide +kernel
  obtain ⟨moments, sim, run, still, _, checked⟩ := opening_run shown
  obtain ⟨table, prompt, late⟩ := of_decide_eq_true checked
  have inside : ∀ device : Device, InArea ⟨0, 0⟩ := fun _ => ⟨by decide +kernel, by decide +kernel⟩
  exact ⟨moments, sim, run, late, by decide, plan_fixed inside run (stays_still inside still)
    (fullRounds_table table) prompt⟩

end FogNetProof.Runs
