import FogNet.System.Ratio
import FogNet.System.Timers

namespace FogNetModel

open Kernel

/-- At this moment the source of the job's sender ticked and sent the job. -/
def Moment.Sends (moment : Moment) (job : Job) : Prop :=
  moment.event = .sourceTick job.sender ∧ (0, .message (.job job)) ∈ moment.reaction.scheduled

/-- No round past its guard falls on the very time at which a job has been sent before it. -/
def RoundsApart (net : FogNetwork) (moments : List Moment) : Prop :=
  moments.Pairwise fun first second =>
    (∃ job, first.Sends job) → second.event = .coordinatorTick →
      second.met.participant.length = net.numHosts → first.time ≠ second.time

end FogNetModel

namespace FogNetProof.Runs

open FogNetModel Kernel FogNetProof.Plans

variable {net : FogNetwork} {position : Device → Coord} {moments : List Moment} {sim : Simulation}

theorem job_scheduled {config : Config} (known : Wellformed net config) {choice : Choice} {event : Event}
    {reaction : Reaction} (handled : handle net choice event config.state = .ok reaction) {delay : Nat}
    {job : Job} (scheduled : (delay, .message (.job job)) ∈ reaction.scheduled) :
    delay = 0 ∧ event = .sourceTick job.sender := by
  cases handle_asks handled _ scheduled with
  | again isTimer => cases isTimer
  | job => exact ⟨rfl, rfl⟩
  | forward onward =>
    rw [unforwarded known] at onward
    cases onward

/-- A job in flight is due now, and now is when it was sent. -/
theorem pending_job (run : TimedRun net position moments sim) {due : Nat} {job : Job}
    (flying : (due, .message (.job job)) ∈ sim.events) :
    due = sim.now ∧ ∃ moment ∈ moments, moment.Sends job ∧ moment.time = sim.now := by
  induction run generalizing due job with
  | refl => exact (start_timers net position _ flying).elim
  | @snoc moments before after moment run handles ih =>
    obtain ⟨rest, events, rfl⟩ := handles.became
    have accounted := events ▸ run_accounted run
    rw [scheduleAll_eq] at flying
    rcases List.mem_append.mp ((enter_perm _ _).subset flying) with old | new
    · obtain ⟨isNow, sender, member, sends, time⟩ := ih (events ▸ List.mem_cons_of_mem _ old)
      have same : due = moment.time := Nat.le_antisymm
        (isNow ▸ accounted.future moment.entry List.mem_cons_self)
        (accounted.next_first _ (List.mem_cons_of_mem _ old))
      exact ⟨same, sender, List.mem_append_left _ member, sends, time.trans (isNow.symm.trans same)⟩
    · obtain ⟨⟨delay, event⟩, scheduled, isNew⟩ := List.mem_map.mp new
      obtain ⟨rfl, rfl⟩ := Prod.mk.inj isNew
      obtain ⟨rfl, ticks⟩ := job_scheduled (met_wellformed run handles) handles.handled scheduled
      exact ⟨Nat.add_zero _, moment, List.mem_append_right _ (List.mem_singleton.mpr rfl),
        ⟨ticks, scheduled⟩, rfl⟩

/-- The clock stands still while a job is in flight, and every job arrives at the time of the tick
    that sent it. -/
theorem jobs_arrive_at_once (run : TimedRun net position moments sim) :
    (∀ due job, (due, .message (.job job)) ∈ sim.events →
      due = sim.now ∧ ∃ moment ∈ moments, moment.Sends job ∧ moment.time = sim.now) ∧
    ∀ earlier arrival later job, moments = earlier ++ arrival :: later →
      arrival.event = .message (.job job) →
        ∃ moment ∈ earlier, moment.Sends job ∧ moment.time = arrival.time := by
  refine ⟨fun due job flying => pending_job run flying, fun earlier arrival later job whole arrives => ?_⟩
  obtain ⟨before, after, first, handles, _⟩ := Labelled.split (whole ▸ run)
  obtain ⟨rest, events, _⟩ := handles.became
  have flying : (arrival.time, .message (.job job)) ∈ before.events := by
    rw [events, ← arrives]
    exact List.mem_cons_self
  obtain ⟨isNow, sender, member, sends, time⟩ := pending_job first flying
  exact ⟨sender, member, sends, time.trans isNow.symm⟩

theorem jobs_arrive_at_once_opening :
    ∃ moments sim arrival, TimedRun (.ofSizes 1 1 1) (fun _ => ⟨0, 0⟩) moments sim ∧ arrival ∈ moments ∧
      arrival.event = .message (.job ⟨⟨.mobileHost, 0⟩, ⟨.fogHost, 0⟩⟩) ∧
      ∃ moment ∈ moments, moment.Sends ⟨⟨.mobileHost, 0⟩, ⟨.fogHost, 0⟩⟩ ∧ moment.time = arrival.time := by
  have shown : opened (fun run => decide (∃ moment ∈ run.1,
      moment.event = .message (.job ⟨⟨.mobileHost, 0⟩, ⟨.fogHost, 0⟩⟩))) = some true := by decide +kernel
  obtain ⟨moments, sim, run, _, _, arrives⟩ := opening_run shown
  obtain ⟨arrival, member, isJob⟩ : ∃ moment ∈ moments,
      moment.event = .message (.job ⟨⟨.mobileHost, 0⟩, ⟨.fogHost, 0⟩⟩) := of_decide_eq_true arrives
  obtain ⟨earlier, later, whole⟩ := List.append_of_mem member
  obtain ⟨moment, sender, facts⟩ := (jobs_arrive_at_once run).2 earlier arrival later _ whole isJob
  exact ⟨moments, sim, arrival, run, member, isJob, moment, whole ▸ List.mem_append_left _ sender, facts⟩

theorem inFlight_events {job : Job} (flying : job ∈ sim.config.inFlight) :
    ∃ due, (due, .message (.job job)) ∈ sim.events := by
  obtain ⟨message, pending, isJob⟩ := (Multiset.mem_filterMap _ _).mp flying
  obtain ⟨event, waiting, isMessage⟩ := List.mem_filterMap.mp (Multiset.mem_coe.mp pending)
  obtain ⟨entry, member, rfl⟩ := List.mem_map.mp waiting
  have isEvent := toMessage_eq_some.mp isMessage
  cases message with
  | job content =>
    cases isJob
    exact ⟨entry.1, isEvent ▸ member⟩
  | sync | action => cases isJob

/-- With rounds apart from the sending of jobs every reported ratio is a percentage. -/
theorem apart_percentage (run : TimedRun net position moments sim) (apart : RoundsApart net moments) :
    Percentage sim.trace := by
  have windowed : Windowed net sim.config := by
    induction run with
    | refl =>
      rw [start_config]
      exact ⟨wellformed_initial net position, Nat.le_refl 0, by simp [Config.initial],
        by simp [Config.initial]⟩
    | @snoc moments before after moment run handles ih =>
      obtain ⟨known, _, across⟩ := List.pairwise_append.mp apart
      obtain ⟨moved, stepped⟩ := handles_effects run handles
      refine windowed_effect (windowed_effect (ih known) (by rintro ⟨_, isTick⟩; cases isTick) moved) ?_ stepped
      rintro ⟨choice, isTick⟩ passed
      apply Multiset.eq_zero_of_forall_notMem
      intro job flying
      obtain ⟨isRound, _⟩ := label_timer isTick
      obtain ⟨rest, isNext, _⟩ := handles.became
      have inFlight : job ∈ before.config.inFlight := flying
      obtain ⟨due, waiting⟩ := inFlight_events inFlight
      obtain ⟨isNow, sender, member, sends, sentAt⟩ := pending_job run waiting
      have accounted := isNext ▸ run_accounted run
      have notBefore : moment.time ≤ due := accounted.next_first (due, _) (isNext ▸ waiting)
      have same : before.now = moment.time := Nat.le_antisymm
        (accounted.future moment.entry List.mem_cons_self) (isNow ▸ notBefore)
      exact across sender member moment (List.mem_singleton.mpr rfl) ⟨_, sends⟩ isRound passed
        (sentAt.trans same)
  exact windowed.percentage

theorem apart_percentage_opening :
    ∃ moments sim, TimedRun (.ofSizes 1 1 1) (fun _ => ⟨0, 0⟩) moments sim ∧ .abratioall 100 ∈ sim.trace ∧
      Percentage sim.trace := by
  have shown : opened (fun run => decide (.abratioall 100 ∈ run.2.trace ∧ run.1.Pairwise fun first second =>
      second.event = .coordinatorTick → second.met.participant.length = 1 → first.time ≠ second.time)) =
        some true := by decide +kernel
  obtain ⟨moments, sim, run, _, _, checked⟩ := opening_run shown
  obtain ⟨seen, times⟩ := of_decide_eq_true checked
  have apart : RoundsApart (.ofSizes 1 1 1) moments := by
    apply List.Pairwise.imp _ times
    intro first second known _
    exact known
  exact ⟨moments, sim, run, seen, apart_percentage run apart⟩

end FogNetProof.Runs
