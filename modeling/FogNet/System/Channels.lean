import FogNet.System.AtomicRounds
import FogNet.System.Jobs
import FogNet.System.Reporting

namespace FogNetModel

open Kernel

def isAction (device : Device) : Message → Bool
  | .action other _ => other = device
  | _ => false

def isJob : Message → Bool
  | .job _ => true
  | _ => false

/-- What arrives and is under way is what the modules meant to say, once and in order: the reports of
    the ticks of each mobile host, every plan sent for each host, and every job sent. -/
structure Delivered (net : FogNetwork) (moments : List Moment) (sim : Simulation) : Prop where
  reports : ∀ device : Device, device.Mobile → onLane (isReport device) moments sim =
    (moments.filter fun tick => tick.event = .localTick device).map fun tick =>
      (tick.time + channelDelay, .sync (device.report tick.met))
  plans : ∀ device, net.Holds device → onLane (isAction device) moments sim =
    moments.flatMap fun round => (round.reaction.trace.filterMap Observation.planned).map fun names =>
      (round.time + channelDelay, .action device (encode names))
  jobs : onLane isJob moments sim =
    moments.flatMap fun tick => (tick.reaction.trace.filterMap Observation.sentJob).map fun job =>
      (tick.time, .job job)

end FogNetModel

namespace FogNetProof.Runs

open FogNetModel FogNetModel.CentralizedCoordinator Kernel FogNetProof.Names FogNetProof.Plans
  FogNetProof.Rounds

variable {net : FogNetwork} {position : Device → Coord} {moments : List Moment} {sim : Simulation}

theorem moment_plans {before after : Simulation} {moment : Moment} (handles : before.Handles net moment after)
    {device : Device} (held : net.Holds device) :
    moment.sent.filter (fun arrival => isAction device arrival.2) =
      (moment.reaction.trace.filterMap Observation.planned).map fun names =>
        (moment.time + channelDelay, .action device (encode names)) := by
  have sound := handles.sound
  have reacts := handle_reacts handles.handled
  unfold Moment.sent
  generalize moment.reaction = reaction at reacts ⊢
  generalize moment.event = event at reacts
  cases reacts with
  | @planned chosen _ _ selected =>
    obtain ⟨_, text⟩ := selected_eq (sound_inRange (problem_aligned _ _ _) sound) selected
    have single := List.count_eq_one_of_mem (actionGates_nodup net) (mem_actionGates.mpr held)
    have own : net.actionGates.filter (fun other => other = device) = [device] := by
      rw [List.filter_eq, single]
      rfl
    rw [Reaction.messages, List.filterMap_cons_none rfl, messages_actions, List.filter_map, List.filter_map]
    show ((net.actionGates.filter fun other => other = device).map _).map _ = _
    rw [own, text]
    rfl
  | asleep | attempted | gaveUp | sent | reported | silent | waiting | unsolved | stored | rewired |
    received | forwarded => simp [Reaction.messages, Event.toMessage, isAction, Observation.planned]

theorem moment_jobs {before after : Simulation} {moment : Moment}
    (run : TimedRun net position moments before) (handles : before.Handles net moment after) :
    moment.sent.filter (fun arrival => isJob arrival.2) =
      (moment.reaction.trace.filterMap Observation.sentJob).map fun job => (moment.time, .job job) := by
  have known := met_wellformed run handles
  have reacts := handle_reacts handles.handled
  unfold Moment.sent
  generalize moment.reaction = reaction at reacts ⊢
  generalize moment.event = event at reacts
  cases reacts with
  | @forwarded job next onward =>
    rw [unforwarded known] at onward
    cases onward
  | sent => rfl
  | planned => simp [Reaction.messages, Event.toMessage, List.filterMap_cons, isJob, Observation.sentJob]
  | asleep | attempted | gaveUp | reported | silent | waiting | unsolved | stored | rewired |
    received => simp [Reaction.messages, Event.toMessage, isJob, Observation.sentJob]

/-- Along every timed run each report, plan and job that is sent arrives once, unchanged, after its delay
    and in the order of the sending. -/
theorem messages_delivered (run : TimedRun net position moments sim) : Delivered net moments sim where
  reports := by
    intro device mobile
    rw [lane_fifo run (isReport_delay device), sent_reports run mobile]
  plans := by
    intro device held
    have oneDelay : ∀ content, isAction device content = true → content.delay = channelDelay := by
      intro content action
      cases content with
      | action => rfl
      | sync | job => cases action
    rw [lane_fifo run oneDelay, List.filter_flatMap]
    apply List.flatMap_congr
    intro moment member
    obtain ⟨_, _, _, _, _, _, handles⟩ := run_handles run member
    exact moment_plans handles held
  jobs := by
    have oneDelay : ∀ content, isJob content = true → content.delay = 0 := by
      intro content job
      cases content with
      | job => rfl
      | sync | action => cases job
    rw [lane_fifo run oneDelay, List.filter_flatMap]
    apply List.flatMap_congr
    intro moment member
    obtain ⟨_, _, _, _, _, first, handles⟩ := run_handles run member
    exact moment_jobs first handles

theorem messages_delivered_opening :
    ∃ moments sim, TimedRun (.ofSizes 1 1 1) (fun _ => ⟨0, 0⟩) moments sim ∧
      onLane (isAction ⟨.mobileHost, 0⟩) moments sim ≠ [] ∧ onLane isJob moments sim ≠ [] ∧
      Delivered (.ofSizes 1 1 1) moments sim := by
  have shown : opened (fun run => decide (onLane (isAction ⟨.mobileHost, 0⟩) run.1 run.2 ≠ [] ∧
      onLane isJob run.1 run.2 ≠ [])) = some true := by decide +kernel
  obtain ⟨moments, sim, run, _, _, checked⟩ := opening_run shown
  obtain ⟨plans, jobs⟩ := of_decide_eq_true checked
  exact ⟨moments, sim, run, plans, jobs, messages_delivered run⟩

end FogNetProof.Runs
