import FogNet.Coordinator.Selection
import FogNet.Links.Delivery

namespace FogNetModel

open Kernel

inductive Signal where
  | asent
  | asentactual
  | brecv
  | abratioall
  deriving DecidableEq, Repr

def Signal.name : Signal → List Char
  | .asent => ['a', 's', 'e', 'n', 't']
  | .asentactual => ['a', 's', 'e', 'n', 't', 'a', 'c', 't', 'u', 'a', 'l']
  | .brecv => ['b', 'r', 'e', 'c', 'v']
  | .abratioall => ['a', 'b', 'r', 'a', 't', 'i', 'o', 'a', 'l', 'l']

structure SignalListener where
  asent : Nat
  asentactual : Nat
  brecv : Nat
  deriving DecidableEq, Repr

namespace SignalListener

def initial : SignalListener := ⟨0, 0, 0⟩

def subscribed : List Signal := [.asent, .asentactual, .brecv]

def receiveSignal (listener : SignalListener) (signalName : List Char) : SignalListener :=
  if signalName = Signal.asent.name then { listener with asent := listener.asent + 1 }
  else if signalName = Signal.asentactual.name then
    { listener with asentactual := listener.asentactual + 1 }
  else if signalName = Signal.brecv.name then { listener with brecv := listener.brecv + 1 }
  else listener

/-- An emission reaches the listener when it is subscribed to the signal. -/
def emit (listener : SignalListener) (signal : Signal) : SignalListener :=
  if signal ∈ subscribed then listener.receiveSignal signal.name else listener

def setAsent (listener : SignalListener) (value : Nat) : SignalListener :=
  { listener with asent := value }

def setBrecv (listener : SignalListener) (value : Nat) : SignalListener :=
  { listener with brecv := value }

def setAsentactual (listener : SignalListener) (value : Nat) : SignalListener :=
  { listener with asentactual := value }

end SignalListener

/-- A job message, bound at send time to the host whose `b` it will arrive at. -/
structure Job where
  sender : Device
  arrival : Device
  deriving DecidableEq, Repr

inductive Message where
  | sync (ctx : ContextSync)
  | action (device : Device) (actions : List Char)
  | job (job : Job)
  deriving DecidableEq

inductive Event where
  | sourceTick (device : Device)
  | localTick (device : Device)
  | coordinatorTick
  | message (message : Message)
  deriving DecidableEq

/-- What an observer of a run sees, in order. `cleared` holds the counters that a round resets. -/
inductive Observation where
  | asent (device : Device)
  | asentactual (job : Job)
  | brecv (job : Job)
  | abratioall (value : Nat)
  | cleared (listener : SignalListener)
  | planSent (plan : List (List Char × List Char))
  deriving DecidableEq

structure State where
  position : Device → Coord
  participant : List SavedMsg
  listener : SignalListener
  gates : Gates

def State.problem (net : FogNetwork) (state : State) : Problem :=
  CentralizedCoordinator.problem net state.participant state.position

/-- What a handler does: the next state, the events it schedules with their delays, in order, and
    what it lets an observer see. -/
structure Reaction where
  state : State
  scheduled : List (Nat × Event)
  trace : List Observation

/-- What a handler takes from outside: the value of the volatile interval and, for a round, the
    solutions that the solver found before its time limit. -/
structure Choice where
  interval : Nat
  solutions : List (Nat × Nat)

def State.emit (state : State) (signal : Signal) : State :=
  { state with listener := state.listener.emit signal }

/-- The delay of the network's channels, 10 ms in picoseconds. -/
def channelDelay : Nat := 10 * 10 ^ 9

def outOfReach (coord peerCoord : Coord) : Prop :=
  |peerCoord.x - coord.x| > 1000 ∨ |peerCoord.y - coord.y| > 1000

instance (coord peerCoord : Coord) : Decidable (outOfReach coord peerCoord) :=
  inferInstanceAs (Decidable (_ ∨ _))

def Source.handleMessage (device : Device) (interval : Nat) (state : State) : Reaction :=
  if device.getName ≠ HostKind.mobileHost.getName then
    { state := state, scheduled := [], trace := [] }
  else
    let counted := state.emit .asent
    let again := (interval, Event.sourceTick device)
    match state.gates.nextGate (.sourceOut device) with
    | none => { state := counted, scheduled := [again], trace := [.asent device] }
    | some otherGate =>
      let peerDevice := otherGate.device
      if outOfReach (state.position device) (state.position peerDevice) then
        { state := { counted with gates := state.gates.disconnect (.sourceOut device) }
          scheduled := [again]
          trace := [.asent device] }
      else
        let job := Job.mk device peerDevice
        { state := counted.emit .asentactual
          scheduled := [(0, .message (.job job)), again]
          trace := [.asent device, .asentactual job] }

def Component.handleMessage (job : Job) (state : State) : Reaction :=
  let counted := state.emit .brecv
  match state.gates.nextGate (.componentOut job.arrival) with
  | some otherGate =>
    { state := counted
      scheduled := [(0, .message (.job { sender := job.arrival, arrival := otherGate.device }))]
      trace := [.brecv job] }
  | none => { state := counted, scheduled := [], trace := [.brecv job] }

def LocalCoordinator.handleTick (device : Device) (interval : Nat) (state : State) : Reaction :=
  let again := (interval, Event.localTick device)
  if device.Mobile then
    let coord := state.position device
    let payload : ContextSync := { device := device.getFullName, x := coord.x, y := coord.y }
    { state := state
      scheduled := [again, (channelDelay, .message (.sync payload))]
      trace := [] }
  else { state := state, scheduled := [again], trace := [] }

namespace CentralizedCoordinator

def ratio (listener : SignalListener) : Nat :=
  if listener.asent ≠ 0 then listener.brecv * 100 / listener.asent else 1

def reset (listener : SignalListener) : SignalListener :=
  ((listener.setAsent 0).setBrecv 0).setAsentactual 0

/-- The round from the solver's answer on. With an empty side there is no assignment to answer; what
    the solver makes of the empty ranges and arrays that it then gets lies outside the model. -/
def coordinate (problem : Problem) (solutions : List (Nat × Nat)) :
    Except Fault (Option Selection) :=
  if solutions = [] then .ok none
  else do
    let selection ← select problem solutions
    return some selection

/-- The coordinator's timer: guard, ratio, reset, solver, and one action message for each host. -/
def handleTick (net : FogNetwork) (choice : Choice) (state : State) : Except Fault Reaction :=
  let again := (choice.interval, Event.coordinatorTick)
  if state.participant.length ≠ net.numHosts then
    .ok { state := state, scheduled := [again], trace := [] }
  else do
    let emitted := state.emit .abratioall
    let quiet := { emitted with listener := reset emitted.listener }
    let seen := [Observation.abratioall (ratio state.listener), .cleared state.listener]
    match ← coordinate (problem net state.participant state.position) choice.solutions with
    | none => return { state := quiet, scheduled := [again], trace := seen }
    | some selection =>
      return {
        state := quiet
        scheduled := again :: net.actionGates.map fun device =>
          (channelDelay, .message (.action device selection.coordinationResultsStr))
        trace := seen ++ [.planSent selection.plan] }

end CentralizedCoordinator

def handle (net : FogNetwork) (choice : Choice) (event : Event) (state : State) :
    Except Fault Reaction :=
  match event with
  | .sourceTick device => .ok (Source.handleMessage device choice.interval state)
  | .localTick device => .ok (LocalCoordinator.handleTick device choice.interval state)
  | .coordinatorTick => CentralizedCoordinator.handleTick net choice state
  | .message (.sync ctx) =>
    .ok { state := { state with
            participant := CentralizedCoordinator.handleSync state.participant ctx }
          scheduled := []
          trace := [] }
  | .message (.action device actions) => do
    let gates ← LocalCoordinator.handleAction net device actions state.gates
    return { state := { state with gates := gates }, scheduled := [], trace := [] }
  | .message (.job job) => .ok (Component.handleMessage job state)

end FogNetModel
