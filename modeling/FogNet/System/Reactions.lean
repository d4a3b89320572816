import FogNet.System.Handlers

namespace FogNetModel

open CentralizedCoordinator Kernel

/-- What a mobile host tells the coordinator. -/
def Device.report (device : Device) (state : State) : ContextSync where
  device := device.getFullName
  x := (state.position device).x
  y := (state.position device).y

/-- The branches of the handlers: what each does with the state, what it asks for and lets see. -/
inductive Reacts (net : FogNetwork) (choice : Choice) (state : State) : Event → Reaction → Prop where
  | asleep {device : Device} (immobile : ¬ device.Mobile) :
      Reacts net choice state (.sourceTick device) ⟨state, [], []⟩
  | attempted {device : Device} (mobile : device.Mobile)
      (unlinked : state.gates.nextGate (.sourceOut device) = none) :
      Reacts net choice state (.sourceTick device)
        ⟨state.emit .asent, [(choice.interval, .sourceTick device)], [.asent device]⟩
  | gaveUp {device : Device} {otherGate : InGate} (mobile : device.Mobile)
      (linked : state.gates.nextGate (.sourceOut device) = some otherGate)
      (far : outOfReach (state.position device) (state.position otherGate.device)) :
      Reacts net choice state (.sourceTick device)
        ⟨{ state.emit .asent with gates := state.gates.disconnect (.sourceOut device) },
          [(choice.interval, .sourceTick device)], [.asent device]⟩
  | sent {device : Device} {otherGate : InGate} (mobile : device.Mobile)
      (linked : state.gates.nextGate (.sourceOut device) = some otherGate)
      (near : ¬ outOfReach (state.position device) (state.position otherGate.device)) :
      Reacts net choice state (.sourceTick device)
        ⟨(state.emit .asent).emit .asentactual,
          [(0, .message (.job ⟨device, otherGate.device⟩)), (choice.interval, .sourceTick device)],
          [.asent device, .asentactual ⟨device, otherGate.device⟩]⟩
  | reported {device : Device} (mobile : device.Mobile) :
      Reacts net choice state (.localTick device)
        ⟨state, [(choice.interval, .localTick device),
          (channelDelay, .message (.sync (device.report state)))], []⟩
  | silent {device : Device} (immobile : ¬ device.Mobile) :
      Reacts net choice state (.localTick device) ⟨state, [(choice.interval, .localTick device)], []⟩
  | waiting (partly : state.participant.length ≠ net.numHosts) :
      Reacts net choice state .coordinatorTick ⟨state, [(choice.interval, .coordinatorTick)], []⟩
  | unsolved (full : state.participant.length = net.numHosts) (none : choice.solutions = []) :
      Reacts net choice state .coordinatorTick
        ⟨{ state with listener := reset state.listener }, [(choice.interval, .coordinatorTick)],
          [.abratioall (ratio state.listener), .cleared state.listener]⟩
  | planned {selection : Selection} (full : state.participant.length = net.numHosts)
      (some : choice.solutions ≠ [])
      (selected : select (state.problem net) choice.solutions = .ok selection) :
      Reacts net choice state .coordinatorTick
        ⟨{ state with listener := reset state.listener },
          (choice.interval, .coordinatorTick) :: net.actionGates.map fun device =>
            (channelDelay, .message (.action device selection.coordinationResultsStr)),
          [.abratioall (ratio state.listener), .cleared state.listener, .planSent selection.plan]⟩
  | stored {ctx : ContextSync} :
      Reacts net choice state (.message (.sync ctx))
        ⟨{ state with participant := handleSync state.participant ctx }, [], []⟩
  | rewired {device : Device} {actions : List Char} {gates : Gates}
      (handled : LocalCoordinator.handleAction net device actions state.gates = .ok gates) :
      Reacts net choice state (.message (.action device actions)) ⟨{ state with gates := gates }, [], []⟩
  | received {job : Job} (last : state.gates.nextGate (.componentOut job.arrival) = none) :
      Reacts net choice state (.message (.job job)) ⟨state.emit .brecv, [], [.brecv job]⟩
  | forwarded {job : Job} {next : InGate}
      (onward : state.gates.nextGate (.componentOut job.arrival) = some next) :
      Reacts net choice state (.message (.job job))
        ⟨state.emit .brecv, [(0, .message (.job ⟨job.arrival, next.device⟩))], [.brecv job]⟩

end FogNetModel

namespace FogNetProof.Runs

open FogNetModel FogNetModel.CentralizedCoordinator Kernel FogNetProof.Plans FogNetProof.Rounds

variable {net : FogNetwork} {choice : Choice} {state : State} {device : Device}

theorem coordinate_cases {problem : Problem} {solutions : List (Nat × Nat)} {outcome : Option Selection}
    (solved : CentralizedCoordinator.coordinate problem solutions = .ok outcome) :
    (solutions = [] ∧ outcome = none) ∨ (solutions ≠ [] ∧ ∃ selection,
      CentralizedCoordinator.select problem solutions = .ok selection ∧ outcome = some selection) := by
  unfold CentralizedCoordinator.coordinate at solved
  split at solved
  · rename_i empty
    cases solved
    exact Or.inl ⟨empty, rfl⟩
  · rename_i offered
    obtain ⟨selection, selected, returned⟩ := bind_ok solved
    cases returned
    exact Or.inr ⟨offered, selection, selected, rfl⟩

theorem source_reacts : Reacts net choice state (.sourceTick device)
    (Source.handleMessage device choice.interval state) := by
  unfold Source.handleMessage
  split
  · rename_i named
    apply Reacts.asleep
    exact fun mobile => named (getName_mobile.mpr mobile)
  · rename_i named
    have mobile : device.Mobile := getName_mobile.mp (not_not.mp named)
    split
    · exact Reacts.attempted mobile ‹_›
    · rename_i otherGate linked
      dsimp only
      split
      · exact Reacts.gaveUp mobile linked ‹_›
      · exact Reacts.sent mobile linked ‹_›

theorem local_reacts : Reacts net choice state (.localTick device)
    (LocalCoordinator.handleTick device choice.interval state) := by
  unfold LocalCoordinator.handleTick
  dsimp only
  split
  · exact Reacts.reported ‹_›
  · exact Reacts.silent ‹_›

theorem coordinator_reacts {reaction : Reaction}
    (handled : CentralizedCoordinator.handleTick net choice state = .ok reaction) :
    Reacts net choice state .coordinatorTick reaction := by
  unfold CentralizedCoordinator.handleTick at handled
  split at handled
  · rename_i partly
    cases handled
    exact Reacts.waiting partly
  · rename_i full
    have full : state.participant.length = net.numHosts := not_not.mp full
    obtain ⟨outcome, solved, returned⟩ := bind_ok handled
    rcases coordinate_cases solved with ⟨none, rfl⟩ | ⟨some, selection, selected, rfl⟩
    · cases returned
      exact Reacts.unsolved full none
    · cases returned
      exact Reacts.planned full some selected

theorem component_reacts {job : Job} : Reacts net choice state (.message (.job job))
    (Component.handleMessage job state) := by
  unfold Component.handleMessage
  dsimp only
  split
  · exact Reacts.forwarded ‹_›
  · exact Reacts.received ‹_›

/-- A handler that returns has taken one of its branches. -/
theorem handle_reacts {event : Event} {reaction : Reaction}
    (handled : handle net choice event state = .ok reaction) : Reacts net choice state event reaction := by
  cases event with
  | sourceTick device =>
    cases handled
    exact source_reacts
  | localTick device =>
    cases handled
    exact local_reacts
  | coordinatorTick => exact coordinator_reacts handled
  | message content =>
    cases content with
    | sync ctx =>
      cases handled
      exact Reacts.stored
    | action device actions =>
      obtain ⟨gates, rewired, returned⟩ := bind_ok handled
      cases returned
      exact Reacts.rewired rewired
    | job job =>
      cases handled
      exact component_reacts

theorem handle_position {event : Event} {reaction : Reaction}
    (handled : handle net choice event state = .ok reaction) : reaction.state.position = state.position := by
  cases handle_reacts handled <;> rfl

/-- A plan is sent by a round that selected it, to every host. -/
theorem handle_planned {event : Event} {reaction : Reaction}
    (handled : handle net choice event state = .ok reaction) {names : List (List Char × List Char)}
    (sent : .planSent names ∈ reaction.trace) :
    event = .coordinatorTick ∧ state.participant.length = net.numHosts ∧
      ∃ selection, select (state.problem net) choice.solutions = .ok selection ∧
        names = selection.plan ∧
        reaction.scheduled = (choice.interval, .coordinatorTick) :: net.actionGates.map fun device =>
          (channelDelay, .message (.action device selection.coordinationResultsStr)) := by
  cases handle_reacts handled with
  | @planned selection full _ selected =>
    have isPlan : names = selection.plan := by simpa using sent
    exact ⟨rfl, full, selection, selected, isPlan, rfl⟩
  | asleep | attempted | gaveUp | sent | reported | silent | waiting | unsolved | stored | rewired |
    received | forwarded => simp at sent

end FogNetProof.Runs
