import FogNet.Kernel.EventSet
import FogNet.System.Steps

namespace FogNetModel

open Kernel

def Submodule.initializeTimers : Submodule → List Event
  | .host device => [.sourceTick device, .localTick device]
  | .centralizedCoordinator => [.coordinatorTick]

def FogNetwork.initialEvents (net : FogNetwork) : List (Nat × Event) :=
  (net.submodules.flatMap Submodule.initializeTimers).map fun event => (0, event)

def messagesIn (events : List (Nat × Event)) : Multiset Message :=
  ↑((events.map Prod.snd).filterMap Event.toMessage)

/-- A timed run: the clock in picoseconds, the future events in their order, and the modules. -/
structure Simulation where
  now : Nat
  events : List (Nat × Event)
  state : State
  trace : List Observation

structure Input where
  position : Device → Coord
  choice : Choice

def Event.label (choice : Choice) : Event → Label
  | .message content => .deliver content
  | timer => .timer timer choice

namespace Simulation

def start (net : FogNetwork) (position : Device → Coord) : Simulation where
  now := 0
  events := net.initialEvents
  state := (Config.initial position).state
  trace := []

def met (sim : Simulation) (input : Input) : State := { sim.state with position := input.position }

/-- The kernel hands the earliest event to its module. With no event left the run has ended. -/
def advance (net : FogNetwork) (input : Input) (sim : Simulation) : Except Fault (Option Simulation) :=
  match sim.events with
  | [] => .ok none
  | (time, event) :: events => do
    let reaction ← handle net input.choice event (sim.met input)
    return some {
      now := time
      events := scheduleAll time reaction.scheduled events
      state := reaction.state
      trace := sim.trace ++ reaction.trace }

/-- One event of a timed run. Only mobile hosts have moved, and the solver's offers satisfy the
    constraints. -/
structure Step (net : FogNetwork) (sim : Simulation) (input : Input) (after : Simulation) : Prop where
  stationary : ∀ device, ¬ device.Mobile → input.position device = sim.state.position device
  sound : ((sim.met input).problem net).Sound input.choice.solutions
  advanced : sim.advance net input = .ok (some after)

def replay (net : FogNetwork) (permits : Simulation → Prop) [DecidablePred permits] (sim : Simulation)
    (choices : List Choice) : Option Simulation :=
  choices.foldlM (fun sim choice =>
    if permits sim ∧ (sim.state.problem net).Sound choice.solutions then
      (sim.advance net ⟨sim.state.position, choice⟩).toOption.join
    else none) sim

def config (sim : Simulation) : Config where
  state := sim.state
  pending := messagesIn sim.events
  trace := sim.trace

def Owned (net : FogNetwork) (sim : Simulation) : Prop :=
  ∀ entry ∈ sim.events, entry.2.toMessage = none → net.Timer entry.2

end Simulation

end FogNetModel

namespace FogNetProof.Runs

open FogNetModel Kernel FogNetProof.Names FogNetProof.Plans

theorem start_timers (net : FogNetwork) (position : Device → Coord) :
    ∀ entry ∈ (Simulation.start net position).events, net.Timer entry.2 := by
  intro entry member
  obtain ⟨event, started, rfl⟩ := List.mem_map.mp member
  obtain ⟨submodule, built, initialized⟩ := List.mem_flatMap.mp started
  cases submodule with
  | host device =>
    have held : net.Holds device := mem_submodules.mp built
    simp only [Submodule.initializeTimers, List.mem_cons, List.not_mem_nil, or_false] at initialized
    rcases initialized with rfl | rfl <;> exact held
  | centralizedCoordinator =>
    rw [List.mem_singleton.mp initialized]
    exact trivial

theorem handle_timers {net : FogNetwork} {choice : Choice} {event : Event} {state : State}
    {reaction : Reaction} (handled : handle net choice event state = .ok reaction) :
    ∀ entry ∈ reaction.scheduled, entry.2.toMessage = none → entry.2 = event := by
  cases handle_reacts handled <;> simp [Event.toMessage]

theorem messagesIn_scheduleAll (time : Nat) (reaction : Reaction) (events : List (Nat × Event)) :
    messagesIn (scheduleAll time reaction.scheduled events) =
      messagesIn events + ↑reaction.messages := by
  have same := (scheduleAll_perm time reaction.scheduled events).filterMap Event.toMessage
  rw [messagesIn, Multiset.coe_eq_coe.mpr same, List.filterMap_append, ← Multiset.coe_add, messagesIn,
    Reaction.messages, List.filterMap_map (l := reaction.scheduled)]
  rfl

/-- An event of a timed run is a step of the untimed network, after the hosts have moved. -/
theorem advance_refines {net : FogNetwork} {sim after : Simulation} {input : Input}
    (owned : sim.Owned net) (step : sim.Step net input after) :
    ∃ time event events, sim.events = (time, event) :: events ∧ after.Owned net ∧
      Step net { sim.config with state := sim.met input } (event.label input.choice) after.config := by
  have advanced := step.advanced
  unfold Simulation.advance at advanced
  cases events : sim.events with
  | nil =>
    rw [events] at advanced
    cases advanced
  | cons entry rest =>
    obtain ⟨time, event⟩ := entry
    rw [events] at advanced
    obtain ⟨reaction, handled, returned⟩ := bind_ok advanced
    cases returned
    have ownTimer : event.toMessage = none → net.Timer event := owned _ (events ▸ List.mem_cons_self)
    refine ⟨time, event, rest, rfl, fun entry member isTimer => ?_, ?_⟩
    · have scheduled := (scheduleAll_perm time reaction.scheduled rest).subset
        (List.mem_map_of_mem (f := Prod.snd) member)
      rcases List.mem_append.mp scheduled with old | new
      · obtain ⟨other, isOld, same⟩ := List.mem_map.mp old
        exact same ▸ owned other (events ▸ List.mem_cons_of_mem _ isOld) (same ▸ isTimer)
      · obtain ⟨other, isNew, same⟩ := List.mem_map.mp new
        rw [← same] at isTimer ⊢
        have isEvent := handle_timers handled other isNew isTimer
        exact isEvent ▸ ownTimer (isEvent ▸ isTimer)
    · have reacted : (Simulation.mk time (scheduleAll time reaction.scheduled rest) reaction.state
          (sim.trace ++ reaction.trace)).config =
          { sim.config with state := sim.met input }.react (messagesIn rest) reaction := by
        rw [Simulation.config, messagesIn_scheduleAll]
        rfl
      rw [reacted]
      cases event with
      | message content =>
        have split : sim.config.pending = content ::ₘ messagesIn rest := by
          rw [Simulation.config, events]
          rfl
        have delivered : Step net { sim.config with state := sim.met input } (.deliver content) _ :=
          Step.deliver (split ▸ Multiset.mem_cons_self _ _) handled
        simpa only [split, Multiset.erase_cons_head, Event.label] using delivered
      | sourceTick | localTick | coordinatorTick =>
        have same : sim.config.pending = messagesIn rest := by
          rw [Simulation.config, events]
          rfl
        have ticked : Step net { sim.config with state := sim.met input } (.timer _ input.choice) _ :=
          Step.timer (ownTimer rfl) step.sound handled
        exact same ▸ ticked

theorem start_config (net : FogNetwork) (position : Device → Coord) :
    (Simulation.start net position).config = Config.initial position := by
  have timers : messagesIn (Simulation.start net position).events = 0 := by
    refine Multiset.eq_zero_of_forall_notMem fun message member => ?_
    obtain ⟨event, waiting, isMessage⟩ := List.mem_filterMap.mp (Multiset.mem_coe.mp member)
    obtain ⟨entry, started, rfl⟩ := List.mem_map.mp waiting
    have timer := start_timers net position entry started
    cases event : entry.2 with
    | message content => exact (event ▸ timer).elim
    | sourceTick | localTick | coordinatorTick =>
      rw [event] at isMessage
      cases isMessage
  rw [Simulation.config, timers]
  rfl

/-- Timed runs are untimed runs, whatever the steps of either are restricted to. -/
theorem run_refines {net : FogNetwork} {allowed : Simulation → Input → Prop}
    {within : Config → Label → Prop} (moves : ∀ config position, within config (.move position))
    (handles : ∀ sim input time event events, allowed sim input → sim.events = (time, event) :: events →
      within { sim.config with state := sim.met input } (event.label input.choice))
    {position : Device → Coord} {sim : Simulation}
    (run : Run (Simulation.Step net) allowed (Simulation.start net position) sim) :
    Run (Step net) within (Config.initial position) sim.config := by
  rw [← start_config net position]
  have owned : (Simulation.start net position).Owned net := fun entry member _ =>
    start_timers net position entry member
  refine (run.simulate Simulation.config ?_ owned).2
  intro before input after owned permitted step
  obtain ⟨time, event, events, next, afterOwned, handled⟩ := advance_refines owned step
  refine ⟨afterOwned, ?_⟩
  have moved : Step net before.config (.move input.position)
      { before.config with state := before.met input } := Step.move step.stationary
  exact (Run.snoc Relation.ReflTransGen.refl (moves _ _) moved).snoc
    (handles before input time event events permitted next) handled

theorem replay_run {net : FogNetwork} {permits : Simulation → Prop} [DecidablePred permits]
    {choices : List Choice} {start finish : Simulation}
    (replayed : start.replay net permits choices = some finish) :
    Run (Simulation.Step net) (fun sim _ => permits sim) start finish := by
  induction choices generalizing start with
  | nil =>
    cases replayed
    exact Relation.ReflTransGen.refl
  | cons choice choices ih =>
    obtain ⟨after, taken, rest⟩ := Option.bind_eq_some_iff.mp replayed
    simp only [Option.ite_none_right_eq_some] at taken
    obtain ⟨⟨permitted, sound⟩, advanced⟩ := taken
    have step : start.Step net ⟨start.state.position, choice⟩ after :=
      ⟨fun _ _ => rfl, sound, toOption_eq_some.mp (Option.join_eq_some_iff.mp advanced)⟩
    exact Relation.ReflTransGen.head ⟨_, permitted, step⟩ (ih rest)

end FogNetProof.Runs
