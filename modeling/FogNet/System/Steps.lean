import FogNet.Kernel.Runs
import FogNet.System.Reactions
import Mathlib.Data.Multiset.AddSub

namespace FogNetModel

open Kernel

structure Config where
  state : State
  pending : Multiset Message
  trace : List Observation

def Event.toMessage : Event → Option Message
  | .message content => some content
  | _ => none

def Reaction.messages (reaction : Reaction) : List Message :=
  reaction.scheduled.filterMap fun entry => entry.2.toMessage

def Config.react (config : Config) (pending : Multiset Message) (reaction : Reaction) : Config where
  state := reaction.state
  pending := pending + ↑reaction.messages
  trace := config.trace ++ reaction.trace

def FogNetwork.Timer (net : FogNetwork) : Event → Prop
  | .sourceTick device => net.Holds device
  | .localTick device => net.Holds device
  | .coordinatorTick => True
  | .message _ => False

instance (net : FogNetwork) : DecidablePred net.Timer
  | .sourceTick device => inferInstanceAs (Decidable (net.Holds device))
  | .localTick device => inferInstanceAs (Decidable (net.Holds device))
  | .coordinatorTick => isTrue trivial
  | .message _ => isFalse id

inductive Label where
  | timer (event : Event) (choice : Choice)
  | deliver (message : Message)
  | move (position : Device → Coord)

/-- One step of the network with no order imposed: any timer, any message in flight, or any
    movement of the mobile hosts. The solver offers satisfying assignments only. -/
inductive Step (net : FogNetwork) (config : Config) : Label → Config → Prop where
  | timer {event : Event} {choice : Choice} {reaction : Reaction} (running : net.Timer event)
      (sound : (config.state.problem net).Sound choice.solutions)
      (handled : handle net choice event config.state = .ok reaction) :
      Step net config (.timer event choice) (config.react config.pending reaction)
  | deliver {message : Message} {choice : Choice} {reaction : Reaction}
      (inFlight : message ∈ config.pending)
      (handled : handle net choice (.message message) config.state = .ok reaction) :
      Step net config (.deliver message) (config.react (config.pending.erase message) reaction)
  | move {position : Device → Coord}
      (stationary : ∀ device, ¬ device.Mobile → position device = config.state.position device) :
      Step net config (.move position)
        { config with state := { config.state with position := position } }

def Config.next (net : FogNetwork) (config : Config) : Label → Option Config
  | .timer event choice =>
    if net.Timer event ∧ (config.state.problem net).Sound choice.solutions then
      (handle net choice event config.state).toOption.map (config.react config.pending)
    else none
  | .deliver message =>
    if message ∈ config.pending then
      (handle net ⟨0, []⟩ (.message message) config.state).toOption.map
        (config.react (config.pending.erase message))
    else none
  | .move _ => none

def Config.play (net : FogNetwork) (config : Config) (labels : List Label) : Option Config :=
  labels.foldlM (Config.next net) config

/-- No link, no report, no message in flight, and the hosts anywhere. -/
def Config.initial (position : Device → Coord) : Config where
  state := ⟨position, [], SignalListener.initial, Wires.unconnected⟩
  pending := 0
  trace := []

def anything (_ : Config) (_ : Label) : Prop := True

def Reachable (net : FogNetwork) (config : Config) : Prop :=
  ∃ position, Run (Step net) anything (Config.initial position) config

/-- The branches of `Reacts` as changes of the whole configuration. -/
inductive Effect (net : FogNetwork) (config : Config) : Label → Config → Prop where
  | quiet {label : Label} (unready : ∀ choice, label = .timer .coordinatorTick choice →
      config.state.participant.length ≠ net.numHosts) : Effect net config label config
  | attempted {device : Device} {choice : Choice} (held : net.Holds device) (mobile : device.Mobile)
      (unlinked : config.state.gates.nextGate (.sourceOut device) = none) :
      Effect net config (.timer (.sourceTick device) choice)
        { config with
          state := config.state.emit .asent
          trace := config.trace ++ [.asent device] }
  | gaveUp {device peer : Device} {choice : Choice} (held : net.Holds device) (mobile : device.Mobile)
      (linked : config.state.gates.nextGate (.sourceOut device) = some (.componentIn peer))
      (far : outOfReach (config.state.position device) (config.state.position peer)) :
      Effect net config (.timer (.sourceTick device) choice)
        { config with
          state := { config.state.emit .asent with
            gates := config.state.gates.disconnect (.sourceOut device) }
          trace := config.trace ++ [.asent device] }
  | sent {device peer : Device} {choice : Choice} (held : net.Holds device) (mobile : device.Mobile)
      (linked : config.state.gates.nextGate (.sourceOut device) = some (.componentIn peer))
      (near : ¬ outOfReach (config.state.position device) (config.state.position peer)) :
      Effect net config (.timer (.sourceTick device) choice)
        { state := (config.state.emit .asent).emit .asentactual
          pending := config.pending + {.job ⟨device, peer⟩}
          trace := config.trace ++ [.asent device, .asentactual ⟨device, peer⟩] }
  | reported {device : Device} {choice : Choice} (held : net.Holds device) (mobile : device.Mobile) :
      Effect net config (.timer (.localTick device) choice)
        { config with
          pending := config.pending + {.sync (device.report config.state)} }
  | unsolved {choice : Choice} (full : config.state.participant.length = net.numHosts)
      (none : choice.solutions = []) :
      Effect net config (.timer .coordinatorTick choice)
        { config with
          state := { config.state with
            listener := CentralizedCoordinator.reset config.state.listener }
          trace := config.trace ++ [.abratioall (CentralizedCoordinator.ratio config.state.listener),
            .cleared config.state.listener] }
  | planned {choice : Choice} {selection : Selection}
      (full : config.state.participant.length = net.numHosts)
      (some : choice.solutions ≠ [])
      (sound : (config.state.problem net).Sound choice.solutions)
      (selected : CentralizedCoordinator.select (config.state.problem net) choice.solutions =
        .ok selection) :
      Effect net config (.timer .coordinatorTick choice)
        { state := { config.state with
            listener := CentralizedCoordinator.reset config.state.listener }
          pending := config.pending + ↑(net.actionGates.map fun device =>
            Message.action device selection.coordinationResultsStr)
          trace := config.trace ++ [.abratioall (CentralizedCoordinator.ratio config.state.listener),
            .cleared config.state.listener, .planSent selection.plan] }
  | stored {ctx : ContextSync} (inFlight : .sync ctx ∈ config.pending) :
      Effect net config (.deliver (.sync ctx))
        { config with
          state := { config.state with
            participant := CentralizedCoordinator.handleSync config.state.participant ctx }
          pending := config.pending.erase (.sync ctx) }
  | rewired {device : Device} {actions : List Char} {gates : Gates}
      (inFlight : .action device actions ∈ config.pending)
      (handled : LocalCoordinator.handleAction net device actions config.state.gates = .ok gates) :
      Effect net config (.deliver (.action device actions))
        { config with
          state := { config.state with gates := gates }
          pending := config.pending.erase (.action device actions) }
  | received {job : Job} (inFlight : .job job ∈ config.pending)
      (last : config.state.gates.nextGate (.componentOut job.arrival) = none) :
      Effect net config (.deliver (.job job))
        { state := config.state.emit .brecv
          pending := config.pending.erase (.job job)
          trace := config.trace ++ [.brecv job] }
  | forwarded {job : Job} {next : InGate} (inFlight : .job job ∈ config.pending)
      (onward : config.state.gates.nextGate (.componentOut job.arrival) = some next) :
      Effect net config (.deliver (.job job))
        { state := config.state.emit .brecv
          pending := config.pending.erase (.job job) + {.job ⟨job.arrival, next.device⟩}
          trace := config.trace ++ [.brecv job] }
  | moved {position : Device → Coord}
      (stationary : ∀ device, ¬ device.Mobile → position device = config.state.position device) :
      Effect net config (.move position)
        { config with state := { config.state with position := position } }

end FogNetModel

namespace FogNetProof.Runs

open FogNetModel Kernel FogNetProof.Plans FogNetProof.Rounds

@[simp] theorem emit_abratioall (state : State) : state.emit .abratioall = state := rfl

theorem messages_actions (net : FogNetwork) (actions : List Char) :
    (net.actionGates.map fun device =>
        (channelDelay, Event.message (.action device actions))).filterMap
      (fun entry => entry.2.toMessage) =
      net.actionGates.map fun device => Message.action device actions := by
  rw [List.filterMap_map]
  exact congrFun List.filterMap_eq_map' _

theorem step_effect {net : FogNetwork} {before after : Config} {label : Label}
    (step : Step net before label after) : Effect net before label after := by
  cases step with
  | timer running sound handled =>
    cases handle_reacts handled with
    | asleep => simpa [Config.react, Reaction.messages] using Effect.quiet (by simp)
    | silent => simpa [Config.react, Reaction.messages, Event.toMessage] using Effect.quiet (by simp)
    | waiting partly =>
      simpa [Config.react, Reaction.messages, Event.toMessage] using Effect.quiet fun _ _ => partly
    | attempted mobile unlinked =>
      simpa [Config.react, Reaction.messages, Event.toMessage] using Effect.attempted running mobile unlinked
    | @gaveUp _ otherGate mobile linked far =>
      obtain ⟨peer⟩ := otherGate
      simpa [Config.react, Reaction.messages, Event.toMessage] using Effect.gaveUp running mobile linked far
    | @sent _ otherGate mobile linked near =>
      obtain ⟨peer⟩ := otherGate
      simpa [Config.react, Reaction.messages, Event.toMessage, InGate.device] using
        Effect.sent running mobile linked near
    | reported mobile =>
      simpa [Config.react, Reaction.messages, Event.toMessage] using Effect.reported running mobile
    | unsolved full none =>
      simpa [Config.react, Reaction.messages, Event.toMessage] using Effect.unsolved full none
    | planned full some selected =>
      simpa [Config.react, Reaction.messages, Event.toMessage, messages_actions] using
        Effect.planned full some sound selected
    | stored | rewired | received | forwarded => exact running.elim
  | deliver inFlight handled =>
    cases handle_reacts handled with
    | stored => simpa [Config.react, Reaction.messages] using Effect.stored inFlight
    | rewired rewired => simpa [Config.react, Reaction.messages] using Effect.rewired inFlight rewired
    | received last => simpa [Config.react, Reaction.messages] using Effect.received inFlight last
    | forwarded onward =>
      simpa [Config.react, Reaction.messages, Event.toMessage] using Effect.forwarded inFlight onward
  | move stationary => exact Effect.moved stationary

theorem toOption_eq_some {A : Type} {computed : Except Fault A} {value : A} :
    computed.toOption = some value ↔ computed = .ok value := by
  cases computed <;> simp [Except.toOption]

theorem next_step {net : FogNetwork} {config after : Config} {label : Label}
    (taken : config.next net label = some after) : Step net config label after := by
  unfold Config.next at taken
  cases label with
  | timer event choice =>
    simp only [Option.ite_none_right_eq_some, Option.map_eq_some_iff, toOption_eq_some] at taken
    obtain ⟨⟨running, sound⟩, reaction, handled, rfl⟩ := taken
    exact Step.timer running sound handled
  | deliver message =>
    simp only [Option.ite_none_right_eq_some, Option.map_eq_some_iff, toOption_eq_some] at taken
    obtain ⟨inFlight, reaction, handled, rfl⟩ := taken
    exact Step.deliver inFlight handled
  | move position => cases taken

theorem play_labelled {net : FogNetwork} {labels : List Label} {start finish : Config}
    (played : start.play net labels = some finish) : Labelled (Step net) start labels finish := by
  induction labels using List.reverseRecOn generalizing finish with
  | nil =>
    cases played
    exact Labelled.refl
  | append_singleton labels label ih =>
    rw [Config.play, List.foldlM_append] at played
    obtain ⟨before, reached, last⟩ := Option.bind_eq_some_iff.mp played
    have taken : before.next net label = some finish := by simpa using last
    exact (ih reached).snoc (next_step taken)

theorem play_run {net : FogNetwork} {allowed : Config → Label → Prop} {labels : List Label}
    (permitted : ∀ label ∈ labels, ∀ config, allowed config label) {start finish : Config}
    (played : start.play net labels = some finish) : Run (Step net) allowed start finish :=
  (play_labelled played).run permitted

theorem play_reachable {net : FogNetwork} {position : Device → Coord} {labels : List Label}
    {config : Config} (played : (Config.initial position).play net labels = some config) :
    Reachable net config :=
  ⟨position, play_run (fun _ _ _ => trivial) played⟩

theorem run_invariant {net : FogNetwork} {allowed : Config → Label → Prop} (holds : Config → Prop)
    (preserved : ∀ before label after, holds before → allowed before label →
      Effect net before label after → holds after)
    {start finish : Config} (run : Run (Step net) allowed start finish) (initially : holds start) :
    holds finish :=
  run.invariant (fun before label after known permitted step =>
    preserved before label after known permitted (step_effect step)) initially

end FogNetProof.Runs
