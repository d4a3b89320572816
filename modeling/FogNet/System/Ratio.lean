import FogNet.System.Jobs
import FogNet.System.Simulation

namespace FogNetModel

open Kernel

/-- Every reported ratio is at most 100, and no closed window has more receptions than sends. -/
structure Percentage (trace : List Observation) : Prop where
  ratios : ∀ value, .abratioall value ∈ trace → value ≤ 100
  windows : ∀ listener, .cleared listener ∈ trace → listener.brecv ≤ listener.asent

def noJobAtRound (net : FogNetwork) (config : Config) (label : Label) : Prop :=
  (∃ choice, label = .timer .coordinatorTick choice) →
    config.state.participant.length = net.numHosts → config.inFlight = 0

def Simulation.JobAtRound (net : FogNetwork) (sim : Simulation) : Prop :=
  sim.events.head?.map Prod.snd = some .coordinatorTick ∧
    sim.state.participant.length = net.numHosts ∧ sim.config.inFlight ≠ 0

instance (net : FogNetwork) (sim : Simulation) : Decidable (sim.JobAtRound net) :=
  inferInstanceAs (Decidable (_ ∧ _ ∧ _))

/-- The receptions that the open window counts or will count are covered by its sends. -/
structure Windowed (net : FogNetwork) (config : Config) : Prop where
  wellformed : Wellformed net config
  covered : config.state.listener.brecv + config.inFlight.card ≤ config.state.listener.asent
  percentage : Percentage config.trace

end FogNetModel

namespace FogNetProof.Runs

open FogNetModel Kernel

theorem ratio_le {listener : SignalListener} (covered : listener.brecv ≤ listener.asent) :
    CentralizedCoordinator.ratio listener ≤ 100 := by
  unfold CentralizedCoordinator.ratio
  split
  · exact Nat.div_le_of_le_mul (by omega)
  · decide

theorem percentage_append {trace new : List Observation} (known : Percentage trace)
    (ratios : ∀ value, .abratioall value ∈ new → value ≤ 100)
    (windows : ∀ listener, .cleared listener ∈ new → listener.brecv ≤ listener.asent) :
    Percentage (trace ++ new) where
  ratios := fun value seen => (List.mem_append.mp seen).elim (known.ratios value) (ratios value)
  windows := fun listener seen =>
    (List.mem_append.mp seen).elim (known.windows listener) (windows listener)

@[simp] theorem listener_asent (state : State) :
    (state.emit .asent).listener = { state.listener with asent := state.listener.asent + 1 } := rfl

@[simp] theorem listener_asentactual (state : State) :
    (state.emit .asentactual).listener =
      { state.listener with asentactual := state.listener.asentactual + 1 } := rfl

@[simp] theorem listener_brecv (state : State) :
    (state.emit .brecv).listener = { state.listener with brecv := state.listener.brecv + 1 } := rfl

theorem windowed_round {net : FogNetwork} {before after : Config} {rest : List Observation}
    (known : Windowed net before) (wellformed : Wellformed net after) (landed : before.inFlight = 0)
    (listener : after.state.listener = CentralizedCoordinator.reset before.state.listener)
    (still : after.inFlight = before.inFlight)
    (trace : after.trace = before.trace ++ (.abratioall (CentralizedCoordinator.ratio before.state.listener) ::
      .cleared before.state.listener :: rest))
    (silent : ∀ seen ∈ rest, ∃ plan, seen = .planSent plan) : Windowed net after := by
  have covered : before.state.listener.brecv ≤ before.state.listener.asent := by
    simpa [landed] using known.covered
  refine ⟨wellformed, ?_, ?_⟩
  · rw [listener, still, landed]
    exact Nat.le_refl 0
  · rw [trace]
    refine percentage_append known.percentage (fun value seen => ?_) fun closed seen => ?_
    · rcases List.mem_cons.mp seen with same | other
      · cases same
        exact ratio_le covered
      · rcases List.mem_cons.mp other with same | later
        · cases same
        · obtain ⟨plan, same⟩ := silent _ later
          cases same
    · rcases List.mem_cons.mp seen with same | other
      · cases same
      · rcases List.mem_cons.mp other with same | later
        · cases same
          exact covered
        · obtain ⟨plan, same⟩ := silent _ later
          cases same

theorem windowed_effect {net : FogNetwork} {before after : Config} {label : Label}
    (known : Windowed net before) (permitted : noJobAtRound net before label)
    (effect : Effect net before label after) : Windowed net after := by
  have wellformed := wellformed_effect known.wellformed effect
  have covered := known.covered
  cases effect with
  | quiet unready => exact known
  | attempted held mobile unlinked =>
    refine ⟨wellformed, ?_, percentage_append known.percentage (by simp) (by simp)⟩
    exact Nat.le_succ_of_le covered
  | gaveUp held mobile linked far =>
    refine ⟨wellformed, ?_, percentage_append known.percentage (by simp) (by simp)⟩
    exact Nat.le_succ_of_le covered
  | @sent device peer choice held mobile linked near =>
    refine ⟨wellformed, ?_, percentage_append known.percentage (by simp) (by simp)⟩
    have more := congrArg Multiset.card (inFlight_sent before ⟨device, peer⟩)
    rw [Multiset.card_add, Multiset.card_singleton] at more
    simp only [listener_asent, listener_asentactual, Config.inFlight] at more covered ⊢
    omega
  | reported held mobile =>
    refine ⟨wellformed, ?_, known.percentage⟩
    exact (congrArg (_ + Multiset.card ·) inFlight_reported).le.trans covered
  | unsolved full none =>
    exact windowed_round known wellformed (permitted ⟨_, rfl⟩ full) rfl rfl rfl (by simp)
  | planned full some sound selected =>
    exact windowed_round known wellformed (permitted ⟨_, rfl⟩ full) rfl
      (inFlight_add _ (noJob_actions _ _)) rfl (by simp)
  | stored inFlight =>
    refine ⟨wellformed, ?_, known.percentage⟩
    exact (congrArg (_ + Multiset.card ·) (inFlight_erase inFlight rfl)).le.trans covered
  | rewired inFlight handled =>
    refine ⟨wellformed, ?_, known.percentage⟩
    exact (congrArg (_ + Multiset.card ·) (inFlight_erase inFlight rfl)).le.trans covered
  | @received job inFlight last =>
    refine ⟨wellformed, ?_, percentage_append known.percentage (by simp) (by simp)⟩
    have fewer := congrArg Multiset.card (inFlight_received inFlight)
    rw [Multiset.card_cons] at fewer
    simp only [listener_brecv, Config.inFlight] at fewer covered ⊢
    omega
  | forwarded inFlight onward =>
    obtain ⟨_, _, _, _, _, _, isSource, _⟩ := known.wellformed.planned _ _ onward
    cases isSource
  | moved stationary => exact ⟨wellformed, covered, known.percentage⟩

theorem run_windowed {net : FogNetwork} {position : Device → Coord} {config : Config}
    (run : Run (Step net) (noJobAtRound net) (Config.initial position) config) : Windowed net config :=
  run_invariant (Windowed net) (fun _ _ _ known permitted effect => windowed_effect known permitted effect) run
    ⟨wellformed_initial net position, Nat.le_refl 0, by simp [Config.initial], by simp [Config.initial]⟩

/-- In a timed run of which no round past its guard meets a job in flight, every ratio is a
    percentage. -/
theorem ratio_percentage {net : FogNetwork} {position : Device → Coord} {sim : Simulation}
    (run : Run (Simulation.Step net) (fun sim _ => ¬ sim.JobAtRound net)
      (Simulation.start net position) sim) : Percentage sim.trace := by
  have windowed : Windowed net sim.config := run_windowed (run_refines ?_ ?_ run)
  · exact windowed.percentage
  · rintro config position ⟨choice, round⟩
    cases round
  · rintro sim input time event events noJob next ⟨choice, round⟩ full
    by_contra flying
    refine noJob ⟨?_, full, flying⟩
    cases event with
    | coordinatorTick => rw [next]; rfl
    | sourceTick | localTick | message => cases round

def milliseconds (count : Nat) : Nat := count * 10 ^ 9

/-- The intervals up to the first plan: the source's second tick comes as given, the three hosts
    report once, and of the rounds at 0 and 20 ms the second passes its guard. -/
def untilPlanned (sourceInterval : Nat) : List Choice :=
  [⟨sourceInterval, []⟩, ⟨milliseconds 500, []⟩, ⟨0, []⟩, ⟨milliseconds 500, []⟩, ⟨0, []⟩,
    ⟨milliseconds 500, []⟩, ⟨milliseconds 20, []⟩, ⟨0, []⟩, ⟨milliseconds 30, [(0, 1)]⟩, ⟨0, []⟩, ⟨0, []⟩,
    ⟨0, []⟩]

theorem ratio_percentage_within_window :
    ∃ sim, Run (Simulation.Step (.ofSizes 1 1 1)) (fun sim _ => ¬ sim.JobAtRound (.ofSizes 1 1 1))
        (Simulation.start (.ofSizes 1 1 1) fun _ => ⟨0, 0⟩) sim ∧
      .abratioall 100 ∈ sim.trace ∧ Percentage sim.trace := by
  have replayed : ((Simulation.start (.ofSizes 1 1 1) fun _ => ⟨0, 0⟩).replay (.ofSizes 1 1 1)
      (fun sim => ¬ sim.JobAtRound (.ofSizes 1 1 1))
      (untilPlanned (milliseconds 40) ++ [⟨milliseconds 500, []⟩, ⟨0, []⟩, ⟨0, []⟩])).map
        (fun sim => decide (.abratioall 100 ∈ sim.trace)) = some true := by decide +kernel
  obtain ⟨sim, reached, seen⟩ := Option.map_eq_some_iff.mp replayed
  exact ⟨sim, replay_run reached, of_decide_eq_true seen, ratio_percentage (replay_run reached)⟩

/-- A job sent at 50 ms, just before a round of the same time, arrives just after it, and the next
    window counts two receptions for one send. -/
theorem ratio_above_hundred :
    ¬ ∀ (net : FogNetwork) (position : Device → Coord) (sim : Simulation),
      Run (Simulation.Step net) (fun _ _ => True) (Simulation.start net position) sim →
        Percentage sim.trace := by
  intro always
  have replayed : ((Simulation.start (.ofSizes 1 1 1) fun _ => ⟨0, 0⟩).replay (.ofSizes 1 1 1)
      (fun _ => True)
      (untilPlanned (milliseconds 50) ++ [⟨milliseconds 20, []⟩, ⟨milliseconds 30, []⟩, ⟨0, []⟩,
        ⟨milliseconds 500, []⟩, ⟨0, []⟩, ⟨0, []⟩])).map
        (fun sim => decide (.abratioall 200 ∈ sim.trace)) = some true := by decide +kernel
  obtain ⟨sim, reached, seen⟩ := Option.map_eq_some_iff.mp replayed
  have bounded := (always _ _ sim (replay_run reached)).ratios 200 (of_decide_eq_true seen)
  omega

end FogNetProof.Runs
