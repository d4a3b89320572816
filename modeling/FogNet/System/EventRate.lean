import FogNet.System.Timers
import Mathlib.Algebra.BigOperators.Ring.List
import Mathlib.Algebra.Order.BigOperators.Group.Finset

namespace FogNetModel

open Kernel

/-- The number of messages that the handler of an event can send. -/
def FogNetwork.fanOut (net : FogNetwork) : Event → Nat
  | .sourceTick _ => 1
  | .localTick _ => 1
  | .coordinatorTick => net.actionGates.length
  | .message _ => 0

/-- The events that a tick can bring about, itself included. -/
def FogNetwork.weight (net : FogNetwork) : Event → Nat
  | .message _ => 0
  | timer => 1 + net.fanOut timer

end FogNetModel

namespace FogNetProof.Runs

open FogNetModel Kernel FogNetProof.Names FogNetProof.Plans

variable {net : FogNetwork} {position : Device → Coord} {moments : List Moment} {sim : Simulation}

/-- A sum over items counts every key as often as it occurs. -/
theorem sum_le_counts {α : Type} [DecidableEq α] (weight : α → Nat) {items keys : List α}
    (distinct : keys.Nodup) (covered : ∀ item ∈ items, weight item ≠ 0 → item ∈ keys) :
    (items.map weight).sum ≤ (keys.map fun key => items.count key * weight key).sum := by
  rw [Finset.sum_list_map_count, ← List.sum_toFinset _ distinct]
  apply Finset.sum_le_sum_of_ne_zero
  intro item member nonzero
  rw [List.mem_toFinset] at member ⊢
  exact covered item member (right_ne_zero_of_mul nonzero)

theorem handle_fanOut {config : Config} (known : Wellformed net config) {choice : Choice} {event : Event}
    {reaction : Reaction} (handled : handle net choice event config.state = .ok reaction) :
    reaction.messages.length ≤ net.fanOut event := by
  cases handle_reacts handled with
  | forwarded onward =>
    rw [unforwarded known] at onward
    cases onward
  | asleep | attempted | gaveUp | sent | reported | silent | waiting | unsolved | planned =>
    simp [Reaction.messages, Event.toMessage, FogNetwork.fanOut]
  | stored | rewired | received => simp [Reaction.messages]

theorem messagesIn_cons (entry : Nat × Event) (rest : List (Nat × Event)) :
    (messagesIn (entry :: rest)).card = (messagesIn rest).card + entry.2.toMessage.toList.length := by
  cases isMessage : entry.2.toMessage <;> simp [messagesIn, isMessage]

theorem weight_eq (net : FogNetwork) (event : Event) :
    net.weight event + event.toMessage.toList.length = 1 + net.fanOut event := by
  cases event <;> simp [FogNetwork.weight, FogNetwork.fanOut, Event.toMessage]

/-- Every event handled and every message in flight is paid for by a tick. -/
theorem events_paid (run : TimedRun net position moments sim) :
    moments.length + sim.config.pending.card ≤ ((moments.map Moment.event).map net.weight).sum := by
  induction run with
  | refl =>
    rw [start_config]
    exact Nat.le_refl _
  | @snoc moments before after moment run handles ih =>
    have sent := handle_fanOut (met_wellformed run handles) handles.handled
    obtain ⟨rest, events, rfl⟩ := handles.became
    have balance := weight_eq net moment.event
    have pending : before.config.pending.card =
        (messagesIn rest).card + moment.event.toMessage.toList.length := by
      rw [Simulation.config, events]
      exact messagesIn_cons _ _
    rw [pending] at ih
    rw [Simulation.config, messagesIn_scheduleAll, Multiset.card_add, Multiset.coe_card, List.length_append,
      List.map_append, List.map_append, List.sum_append]
    simp only [List.map_cons, List.map_nil, List.sum_singleton, List.length_singleton]
    omega

theorem events_count (timer : Event) (moments : List Moment) :
    (moments.map Moment.event).count timer = (moments.filter fun moment => moment.event = timer).length := by
  rw [List.count, List.countP_map, List.countP_eq_length_filter]
  congr 1

/-- A timer with intervals of at least `period` has ticked at most once for each of them. -/
theorem recurring_count {timer : Event} (recurring : net.Recurring timer) (run : TimedRun net position moments sim)
    {period : Nat} (positive : 0 < period)
    (slow : ∀ moment ∈ moments, moment.event = timer → period ≤ moment.choice.interval) :
    (moments.map Moment.event).count timer ≤ sim.now / period + 1 := by
  rw [events_count]
  cases ticks : (moments.filter fun moment => moment.event = timer) using List.reverseRecOn with
  | nil => simp
  | append_singleton front last =>
    have time := tick_time recurring run ticks
    have isTick : ∀ tick ∈ front ++ [last], tick ∈ moments ∧ tick.event = timer := by
      intro tick member
      rw [← ticks] at member
      simpa using member
    have past : last.time ≤ sim.now :=
      (run_accounted run).past last.entry (List.mem_map_of_mem (isTick last (by simp)).1)
    have intervals : front.length * period ≤ (front.map fun moment => moment.choice.interval).sum := by
      have each : ∀ interval ∈ front.map fun moment => moment.choice.interval, period ≤ interval := by
        intro interval member
        obtain ⟨tick, isFront, rfl⟩ := List.mem_map.mp member
        obtain ⟨handled, isTimer⟩ := isTick tick (List.mem_append_left _ isFront)
        exact slow tick handled isTimer
      have all := List.card_nsmul_le_sum _ period each
      rwa [List.length_map, nsmul_eq_mul, Nat.cast_id] at all
    have fits : front.length ≤ sim.now / period := by
      apply (Nat.le_div_iff_mul_le positive).mpr
      omega
    rw [List.length_append, List.length_singleton]
    omega

theorem timer_count {timer : Event} (running : net.Timer timer) (run : TimedRun net position moments sim)
    {period : Nat} (positive : 0 < period)
    (slow : ∀ moment ∈ moments, net.Recurring moment.event → period ≤ moment.choice.interval) :
    (moments.map Moment.event).count timer ≤ sim.now / period + 1 := by
  by_cases recurring : net.Recurring timer
  · exact recurring_count recurring run positive fun moment member isTimer =>
      slow moment member (isTimer ▸ recurring)
  · cases timer with
    | sourceTick device =>
      have held : net.Holds device := running
      have once := congrArg List.length (immobile_ticks run held fun mobile => recurring ⟨held, mobile⟩)
      rw [tickTimes, List.filter_append, handled_ticks, List.length_map, List.length_append, List.length_map,
        ← events_count, List.length_singleton] at once
      apply Nat.le_trans (Nat.le.intro once)
      apply Nat.le_add_left
    | localTick device => exact absurd running recurring
    | coordinatorTick => exact absurd trivial recurring
    | message content => exact running.elim

theorem hosts_weight (net : FogNetwork) (devices : List Device) :
    (((devices.map Submodule.host).flatMap Submodule.initializeTimers).map net.weight).sum =
      4 * devices.length := by
  induction devices with
  | nil => rfl
  | cons device devices ih =>
    rw [List.map_cons, List.flatMap_cons, List.map_append, List.sum_append, ih, List.length_cons]
    simp only [Submodule.initializeTimers, List.map_cons, List.map_nil, List.sum_cons, List.sum_nil,
      FogNetwork.weight, FogNetwork.fanOut]
    omega

theorem timers_weight (net : FogNetwork) :
    ((net.submodules.flatMap Submodule.initializeTimers).map net.weight).sum =
      5 * (net.numHosts + net.numFogHosts + net.numCloudHosts) + 1 := by
  rw [(((submodules_perm net).flatMap_right _).map _).sum_eq, List.flatMap_append, List.map_append, List.sum_append,
    hosts_weight, (hosts_perm net).length_eq]
  simp only [List.flatMap_singleton, Submodule.initializeTimers, List.map_singleton, List.sum_singleton,
    FogNetwork.weight, FogNetwork.fanOut, actionGates_length]
  omega

/-- When every recurring timer takes at least `period` for a tick, a run handles at most five events
    for each host, and one more, in each period begun. -/
theorem events_bounded (run : TimedRun net position moments sim) {period : Nat} (positive : 0 < period)
    (slow : ∀ moment ∈ moments, net.Recurring moment.event → period ≤ moment.choice.interval) :
    moments.length + sim.config.pending.card ≤
      (sim.now / period + 1) * (5 * (net.numHosts + net.numFogHosts + net.numCloudHosts) + 1) := by
  have covered : ∀ event ∈ moments.map Moment.event, net.weight event ≠ 0 →
      event ∈ net.submodules.flatMap Submodule.initializeTimers := by
    intro event member nonzero
    obtain ⟨moment, handled, rfl⟩ := List.mem_map.mp member
    refine mem_initializeTimers.mpr (run_timers run moment handled ?_)
    cases event : moment.event with
    | message content => exact absurd (by rw [event]; rfl) nonzero
    | sourceTick | localTick | coordinatorTick => rfl
  have counted := sum_le_counts net.weight (initializeTimers_nodup net) covered
  have bounded : ((net.submodules.flatMap Submodule.initializeTimers).map fun timer =>
      (moments.map Moment.event).count timer * net.weight timer).sum ≤
        ((net.submodules.flatMap Submodule.initializeTimers).map fun timer =>
          (sim.now / period + 1) * net.weight timer).sum := by
    apply List.sum_le_sum
    intro timer member
    exact Nat.mul_le_mul_right _ (timer_count (mem_initializeTimers.mp member) run positive slow)
  rw [List.sum_map_mul_left, timers_weight] at bounded
  exact (events_paid run).trans (counted.trans bounded)

theorem events_bounded_opening :
    ∃ moments sim, TimedRun (.ofSizes 1 1 1) (fun _ => ⟨0, 0⟩) moments sim ∧ moments.length = 15 ∧
      moments.length + sim.config.pending.card ≤ (sim.now / (3 * channelDelay) + 1) * (5 * (1 + 1 + 1) + 1) := by
  have shown : opened (fun run => decide (run.1.length = 15 ∧ ∀ moment ∈ run.1,
      moment.event.toMessage = none → 3 * channelDelay ≤ moment.choice.interval)) = some true := by
    decide +kernel
  obtain ⟨moments, sim, run, _, _, checked⟩ := opening_run shown
  obtain ⟨length, slow⟩ := of_decide_eq_true checked
  have bounded := events_bounded run (by decide) fun moment member recurring =>
    slow moment member (timer_toMessage (recurring_timer recurring))
  exact ⟨moments, sim, run, length, bounded⟩

end FogNetProof.Runs
