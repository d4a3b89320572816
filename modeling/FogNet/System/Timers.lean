import FogNet.System.IndexRanges
import FogNet.System.Journal

namespace FogNetModel

open Kernel

/-- The timers that ask for themselves again at each of their ticks. -/
def FogNetwork.Recurring (net : FogNetwork) : Event → Prop
  | .sourceTick device => net.Holds device ∧ device.Mobile
  | .localTick device => net.Holds device
  | .coordinatorTick => True
  | .message _ => False

def isTick (timer : Event) (entry : Nat × Event) : Bool := entry.2 = timer

/-- The times of all ticks of a timer, handled or still to come. -/
def tickTimes (timer : Event) (moments : List Moment) (sim : Simulation) : List Nat :=
  ((moments.map Moment.entry ++ sim.events).filter (isTick timer)).map Prod.fst

/-- The intervals that a timer drew at its ticks. -/
def intervals (timer : Event) (moments : List Moment) : List Nat :=
  (moments.filter fun moment => moment.event = timer).map fun moment => moment.choice.interval

/-- Every recurring timer has one tick to come, and each of its ticks is at the sum of the intervals
    drawn before it. The source of an immobile host wakes at the start and never again. -/
structure TimersKept (net : FogNetwork) (moments : List Moment) (sim : Simulation) : Prop where
  recurring : ∀ timer, net.Recurring timer →
    tickTimes timer moments sim = (intervals timer moments).partialSums
  pending : ∀ timer, net.Recurring timer →
    sim.events.filter (isTick timer) = [((intervals timer moments).sum, timer)]
  once : ∀ device, net.Holds device → ¬ device.Mobile →
    tickTimes (.sourceTick device) moments sim = [0]
  absent : ∀ timer, timer.toMessage = none → ¬ net.Timer timer → tickTimes timer moments sim = []

end FogNetModel

namespace FogNetProof.Runs

open FogNetModel Kernel FogNetProof.Links FogNetProof.Names FogNetProof.Plans FogNetProof.Rounds

variable {net : FogNetwork} {position : Device → Coord} {moments : List Moment} {sim : Simulation}
  {timer : Event}

theorem isTick_iff {timer : Event} {entry : Nat × Event} : isTick timer entry = true ↔ entry.2 = timer := by
  simp [isTick]

theorem recurring_timer {timer : Event} (recurring : net.Recurring timer) : net.Timer timer := by
  cases timer with
  | sourceTick device => exact recurring.1
  | localTick device => exact recurring
  | coordinatorTick => exact trivial
  | message content => exact recurring

theorem timer_toMessage {timer : Event} (running : net.Timer timer) : timer.toMessage = none := by
  cases timer with
  | message content => exact running.elim
  | sourceTick | localTick | coordinatorTick => rfl

theorem initializeTimers_unique {left right : Submodule} {timer : Event}
    (inLeft : timer ∈ left.initializeTimers) (inRight : timer ∈ right.initializeTimers) : left = right := by
  cases left with
  | host device =>
    cases right with
    | host other =>
      simp only [Submodule.initializeTimers, List.mem_cons, List.not_mem_nil, or_false] at inLeft inRight
      rcases inLeft with rfl | rfl <;> simpa using inRight
    | centralizedCoordinator =>
      obtain rfl := List.mem_singleton.mp inRight
      simp [Submodule.initializeTimers] at inLeft
  | centralizedCoordinator =>
    obtain rfl := List.mem_singleton.mp inLeft
    cases right with
    | host device => simp [Submodule.initializeTimers] at inRight
    | centralizedCoordinator => rfl

theorem initializeTimers_nodup (net : FogNetwork) :
    (net.submodules.flatMap Submodule.initializeTimers).Nodup := by
  refine List.nodup_flatMap.mpr ⟨fun submodule _ => ?_, (submodules_nodup net).imp fun different => ?_⟩
  · cases submodule <;> simp [Submodule.initializeTimers]
  · exact fun _ inLeft inRight => different (initializeTimers_unique inLeft inRight)

theorem mem_initializeTimers {timer : Event} :
    timer ∈ net.submodules.flatMap Submodule.initializeTimers ↔ net.Timer timer := by
  constructor
  · intro member
    exact start_timers net (fun _ => ⟨0, 0⟩) (0, timer) (List.mem_map_of_mem (f := fun event => (0, event)) member)
  · intro running
    apply List.mem_flatMap.mpr
    cases timer with
    | sourceTick device =>
      exact ⟨.host device, mem_submodules.mpr running, by simp [Submodule.initializeTimers]⟩
    | localTick device =>
      exact ⟨.host device, mem_submodules.mpr running, by simp [Submodule.initializeTimers]⟩
    | coordinatorTick =>
      refine ⟨.centralizedCoordinator, ?_, by simp [Submodule.initializeTimers]⟩
      rw [(submodules_perm net).mem_iff]
      simp
    | message content => exact running.elim

theorem initialEvents_tick (running : net.Timer timer) :
    net.initialEvents.filter (isTick timer) = [(0, timer)] := by
  have single := List.count_eq_one_of_mem (initializeTimers_nodup net) (mem_initializeTimers.mpr running)
  have kept : (net.submodules.flatMap Submodule.initializeTimers).filter (fun event => event = timer) =
      [timer] := by
    rw [List.filter_eq, single]
    rfl
  rw [FogNetwork.initialEvents, List.filter_map]
  exact congrArg _ kept

theorem initialEvents_noTick (idle : ¬ net.Timer timer) :
    net.initialEvents.filter (isTick timer) = [] := by
  refine List.filter_eq_nil_iff.mpr fun entry member isTimer => idle ?_
  rw [← isTick_iff.mp isTimer]
  exact start_timers net (fun _ => ⟨0, 0⟩) entry member

theorem partialSums_snoc (sums : List Nat) (next : Nat) :
    (sums ++ [next]).partialSums = sums.partialSums ++ [sums.sum + next] := by
  show (sums ++ [next]).scanl (· + ·) 0 = sums.scanl (· + ·) 0 ++ [sums.sum + next]
  simp [List.scanl_append, List.sum_eq_foldl]

theorem partialSums_read (sums : List Nat) (index : Nat) :
    sums.partialSums[index]? = if index ≤ sums.length then some (sums.take index).sum else none := by
  show (sums.scanl (· + ·) 0)[index]? = _
  simp [List.getElem?_scanl, List.sum_eq_foldl]

/-- A recurring timer asks for itself once, after the interval drawn. -/
theorem handle_again (recurring : net.Recurring timer) {choice : Choice} {state : State}
    {reaction : Reaction} (handled : handle net choice timer state = .ok reaction) :
    reaction.scheduled.filter (isTick timer) = [(choice.interval, timer)] := by
  cases handle_reacts handled with
  | asleep immobile => exact absurd recurring.2 immobile
  | attempted | gaveUp | sent | reported | silent | waiting | unsolved | planned => simp [isTick]
  | stored | rewired | received | forwarded => exact recurring.elim

theorem handle_other {choice : Choice} {event : Event} {state : State} {reaction : Reaction}
    (handled : handle net choice event state = .ok reaction) (isTimer : timer.toMessage = none)
    (other : event ≠ timer) : reaction.scheduled.filter (isTick timer) = [] := by
  refine List.filter_eq_nil_iff.mpr fun entry scheduled ticks => other ?_
  have isEntry := isTick_iff.mp ticks
  rw [← isEntry, handle_timers handled entry scheduled (isEntry ▸ isTimer)]

theorem handle_immobile {device : Device} (immobile : ¬ device.Mobile) {choice : Choice} {state : State}
    {reaction : Reaction} (handled : handle net choice (.sourceTick device) state = .ok reaction) :
    reaction.scheduled = [] := by
  cases handle_reacts handled with
  | asleep => rfl
  | attempted mobile | gaveUp mobile | sent mobile => exact absurd mobile immobile

theorem dueAfter_filter (now : Nat) (delays : List (Nat × Event)) :
    (dueAfter now delays).filter (isTick timer) = dueAfter now (delays.filter (isTick timer)) := by
  rw [dueAfter, List.filter_map]
  rfl

theorem scheduleAll_filter_perm (timer : Event) (now : Nat) (delays rest : List (Nat × Event)) :
    ((scheduleAll now delays rest).filter (isTick timer)).Perm
      (rest.filter (isTick timer) ++ dueAfter now (delays.filter (isTick timer))) := by
  rw [← dueAfter_filter, ← List.filter_append, scheduleAll_eq]
  exact (enter_perm _ _).filter _

theorem intervals_snoc (timer : Event) (moments : List Moment) (moment : Moment) :
    intervals timer (moments ++ [moment]) =
      intervals timer moments ++ if moment.event = timer then [moment.choice.interval] else [] := by
  rw [intervals, List.filter_append, List.map_append, ← intervals, List.filter_singleton]
  by_cases ticks : moment.event = timer <;> simp [ticks]

/-- The one tick to come of a recurring timer is due at the sum of the intervals drawn. -/
theorem pending_tick (timer : Event) (recurring : net.Recurring timer) (run : TimedRun net position moments sim) :
    sim.events.filter (isTick timer) = [((intervals timer moments).sum, timer)] := by
  have isTimer := timer_toMessage (recurring_timer recurring)
  induction run with
  | refl => exact initialEvents_tick (recurring_timer recurring)
  | @snoc moments before after moment run handles ih =>
    obtain ⟨rest, events, rfl⟩ := handles.became
    have left := scheduleAll_filter_perm timer moment.time moment.reaction.scheduled rest
    rw [events, List.filter_cons] at ih
    rw [intervals_snoc]
    by_cases ticks : moment.event = timer
    · subst ticks
      simp only [isTick_iff.mpr (show moment.entry.2 = moment.event from rfl), if_true,
        List.cons.injEq] at ih
      obtain ⟨due, noOther⟩ := ih
      rw [noOther, handle_again recurring handles.handled] at left
      have time : moment.time = (intervals moment.event moments).sum := congrArg Prod.fst due
      simpa [dueAfter, time] using left
    · have notHead : isTick timer moment.entry = false := decide_eq_false ticks
      rw [notHead] at ih
      rw [handle_other handles.handled isTimer ticks] at left
      simp only [Bool.false_eq_true, if_false] at ih
      rw [ih] at left
      simpa [dueAfter, ticks] using left

theorem tick_times (recurring : net.Recurring timer) (run : TimedRun net position moments sim) :
    tickTimes timer moments sim = (intervals timer moments).partialSums := by
  have pending := pending_tick timer recurring run
  have ticked : ((moments.map Moment.entry).filter (isTick timer)).map Prod.fst ++
      [(intervals timer moments).sum] = (intervals timer moments).partialSums := by
    clear pending
    induction run with
    | refl => rfl
    | @snoc moments before after moment run handles ih =>
      obtain ⟨rest, events, _⟩ := handles.became
      rw [intervals_snoc, List.map_append, List.filter_append, List.map_append]
      by_cases ticks : moment.event = timer
      · have due := pending_tick timer recurring run
        rw [events, List.filter_cons, if_pos (isTick_iff.mpr ticks)] at due
        have time : moment.time = (intervals timer moments).sum :=
          congrArg Prod.fst (List.cons.inj due).1
        rw [if_pos ticks, partialSums_snoc, ← ih]
        simp [Moment.entry, isTick, ticks, time]
      · simpa [Moment.entry, isTick, ticks] using ih
  rw [tickTimes, List.filter_append, List.map_append, pending]
  exact ticked

theorem handled_ticks (timer : Event) (moments : List Moment) :
    (moments.map Moment.entry).filter (isTick timer) =
      (moments.filter fun moment => moment.event = timer).map Moment.entry := List.filter_map

/-- A tick comes at the sum of the intervals drawn at the ticks before it. -/
theorem tick_time (recurring : net.Recurring timer) (run : TimedRun net position moments sim)
    {earlier later : List Moment} {tick : Moment}
    (ticks : moments.filter (fun moment => moment.event = timer) = earlier ++ tick :: later) :
    tick.time = (earlier.map fun moment => moment.choice.interval).sum := by
  have times := congrArg (fun times => times[earlier.length]?) (tick_times recurring run)
  rw [tickTimes, List.filter_append, handled_ticks, intervals, ticks, partialSums_read] at times
  simpa [Moment.entry] using times

theorem sum_within {period bound : Nat} {drawn : List Nat} (prompt : ∀ interval ∈ drawn, interval ≤ period)
    (far : bound + period < drawn.sum) :
    ∃ earlier interval later, drawn = earlier ++ interval :: later ∧ bound < earlier.sum ∧
      earlier.sum ≤ bound + period := by
  induction drawn using List.reverseRecOn with
  | nil => simp at far
  | append_singleton drawn last ih =>
    have promptBefore : ∀ interval ∈ drawn, interval ≤ period := fun interval member =>
      prompt interval (List.mem_append_left _ member)
    by_cases further : bound + period < drawn.sum
    · obtain ⟨earlier, interval, later, rfl, window⟩ := ih promptBefore further
      exact ⟨earlier, interval, later ++ [last], by simp, window⟩
    · have short := prompt last (by simp)
      rw [List.sum_append, List.sum_singleton] at far
      exact ⟨drawn, last, [], rfl, by omega, by omega⟩

/-- A timer with intervals of at most `period` ticks in every window of that length that lies before all
    events to come. -/
theorem tick_within (timer : Event) (recurring : net.Recurring timer) (run : TimedRun net position moments sim)
    {period bound now : Nat} (prompt : ∀ moment ∈ moments, moment.event = timer → moment.choice.interval ≤ period)
    (future : ∀ entry ∈ sim.events, now ≤ entry.1) (far : bound + period < now) :
    ∃ tick ∈ moments, tick.event = timer ∧ bound < tick.time ∧ tick.time ≤ bound + period := by
  have pending := pending_tick timer recurring run
  have waits := List.mem_of_mem_filter (pending ▸ List.mem_singleton.mpr rfl)
  have future : now ≤ (intervals timer moments).sum := future _ waits
  have drawn : ∀ interval ∈ intervals timer moments, interval ≤ period := by
    intro interval member
    obtain ⟨tick, ticked, rfl⟩ := List.mem_map.mp member
    obtain ⟨isMoment, isTimer⟩ := List.mem_filter.mp ticked
    exact prompt tick isMoment (of_decide_eq_true isTimer)
  obtain ⟨earlier, interval, later, split, after, before⟩ := sum_within drawn (Nat.lt_of_lt_of_le far future)
  obtain ⟨front, rest, ticks, isFront, follow⟩ := List.map_eq_append_iff.mp split
  obtain ⟨tick, back, rfl, _, _⟩ := List.map_eq_cons_iff.mp follow
  have time := tick_time recurring run ticks
  rw [isFront] at time
  have member : tick ∈ moments.filter fun moment => moment.event = timer := by simp [ticks]
  obtain ⟨isMoment, isTimer⟩ := List.mem_filter.mp member
  exact ⟨tick, isMoment, of_decide_eq_true isTimer, time ▸ after, time ▸ before⟩

theorem asked_noTick (run : TimedRun net position moments sim)
    (silent : ∀ moment ∈ moments, moment.reaction.scheduled.filter (isTick timer) = []) :
    ((moments.map Moment.entry ++ sim.events).filter (isTick timer)).Perm
      (net.initialEvents.filter (isTick timer)) := by
  have noneAsked : (moments.flatMap Moment.asked).filter (isTick timer) = [] := by
    rw [List.filter_flatMap]
    apply List.flatMap_eq_nil_iff.mpr
    intro moment member
    rw [Moment.asked, dueAfter_filter, silent moment member]
    rfl
  have conserved := (run_accounted run).conserved.filter (isTick timer)
  have initial : (net.asked moments).filter (isTick timer) = net.initialEvents.filter (isTick timer) := by
    rw [FogNetwork.asked, List.filter_append, noneAsked, List.append_nil]
  exact initial ▸ conserved

theorem run_timers (run : TimedRun net position moments sim) :
    ∀ moment ∈ moments, moment.event.toMessage = none → net.Timer moment.event := by
  induction run with
  | refl => simp
  | snoc run handles ih =>
    intro moment member isTimer
    rcases List.mem_append.mp member with old | new
    · exact ih moment old isTimer
    · obtain rfl := List.mem_singleton.mp new
      obtain ⟨rest, events, _⟩ := handles.became
      exact run_owned run _ (events ▸ List.mem_cons_self) isTimer

/-- The source of an immobile host ticks once. -/
theorem immobile_ticks {device : Device} (run : TimedRun net position moments sim) (held : net.Holds device)
    (immobile : ¬ device.Mobile) : tickTimes (.sourceTick device) moments sim = [0] := by
  have silent : ∀ moment ∈ moments, moment.reaction.scheduled.filter (isTick (.sourceTick device)) = [] := by
    intro moment member
    have handled := run_handled run moment member
    by_cases own : moment.event = .sourceTick device
    · rw [handle_immobile immobile (own ▸ handled)]
      rfl
    · exact handle_other handled rfl own
  have ticks := asked_noTick run silent
  have running : net.Timer (.sourceTick device) := held
  rw [initialEvents_tick running, List.perm_singleton] at ticks
  rw [tickTimes, ticks]
  rfl

/-- Along every timed run the timers tick as their modules drew the intervals. -/
theorem timers_kept (run : TimedRun net position moments sim) : TimersKept net moments sim where
  recurring := fun _ recurring => tick_times recurring run
  pending := fun timer recurring => pending_tick timer recurring run
  once := fun _ held immobile => immobile_ticks run held immobile
  absent := by
    intro timer isTimer idle
    have silent : ∀ moment ∈ moments, moment.reaction.scheduled.filter (isTick timer) = [] := by
      intro moment member
      apply handle_other (run_handled run moment member) isTimer
      rintro rfl
      exact idle (run_timers run moment member isTimer)
    have ticks := asked_noTick run silent
    rw [initialEvents_noTick idle, List.perm_nil] at ticks
    rw [tickTimes, ticks]
    rfl

theorem timers_kept_opening :
    ∃ moments sim, TimedRun (.ofSizes 1 1 1) (fun _ => ⟨0, 0⟩) moments sim ∧
      intervals .coordinatorTick moments = [3 * channelDelay, 3 * channelDelay, 3 * channelDelay] ∧
      TimersKept (.ofSizes 1 1 1) moments sim := by
  have shown : opened (fun run => decide (intervals .coordinatorTick run.1 =
      [3 * channelDelay, 3 * channelDelay, 3 * channelDelay])) = some true := by decide +kernel
  obtain ⟨moments, sim, run, _, _, drawn⟩ := opening_run shown
  exact ⟨moments, sim, run, of_decide_eq_true drawn, timers_kept run⟩

/-- Handling an event is a movement of the hosts followed by a step of the untimed network. -/
theorem handles_effects {before after : Simulation} {moment : Moment}
    (run : TimedRun net position moments before) (handles : before.Handles net moment after) :
    Effect net before.config (.move moment.met.position) { before.config with state := moment.met } ∧
      Effect net { before.config with state := moment.met } (moment.event.label moment.choice)
        after.config := by
  have met : before.met ⟨moment.met.position, moment.choice⟩ = moment.met := handles.met.symm
  obtain ⟨time, event, events, next, _, stepped⟩ := advance_refines (run_owned run) (handles_step handles)
  obtain ⟨rest, isNext, _⟩ := handles.became
  cases next.symm.trans isNext
  rw [met] at stepped
  have moved : Effect net before.config (.move moment.met.position)
      { before.config with state := before.met ⟨moment.met.position, moment.choice⟩ } :=
    Effect.moved handles.stationary
  exact ⟨met ▸ moved, step_effect stepped⟩

theorem met_wellformed {before after : Simulation} {moment : Moment}
    (run : TimedRun net position moments before) (handles : before.Handles net moment after) :
    Wellformed net { before.config with state := moment.met } :=
  wellformed_effect (reachable_wellformed (run_reachable run)) (handles_effects run handles).1

theorem linked_hosts {config : Config} {sender receiver : Device} (known : Wellformed net config)
    (linked : (sender, receiver) ∈ linkSet config.state.gates) :
    net.Holds sender ∧ sender.Mobile ∧ ¬ receiver.Mobile := by
  obtain ⟨plan, other, _, carried, _, planned, isSender, isReceiver⟩ := known.planned _ _ linked
  cases isSender
  cases isReceiver
  exact ⟨(carried _ planned).1, plan.senders_mobile _ planned, plan.receivers_immobile _ planned⟩

theorem unforwarded {config : Config} (known : Wellformed net config) (device : Device) :
    config.state.gates.nextGate (.componentOut device) = none := by
  cases onward : config.state.gates.nextGate (.componentOut device) with
  | none => rfl
  | some input =>
    obtain ⟨_, _, _, _, _, _, isOutput, _⟩ := known.planned _ _ onward
    cases isOutput

theorem label_timer {event : Event} {choice drawn : Choice} (isTimer : event.label choice = .timer timer drawn) :
    event = timer ∧ choice = drawn := by
  cases event with
  | message content => cases isTimer
  | sourceTick | localTick | coordinatorTick =>
    cases isTimer
    exact ⟨rfl, rfl⟩

theorem coordinate_total {state : State} {solutions : List (Nat × Nat)}
    (sound : (state.problem net).Sound solutions) :
    ∃ outcome, CentralizedCoordinator.coordinate (state.problem net) solutions = .ok outcome := by
  by_cases empty : solutions = []
  · exact ⟨none, if_pos empty⟩
  · have aligned : (state.problem net).Aligned := problem_aligned _ _ _
    obtain ⟨selection, selected, _⟩ := select_eq (sound_inRange aligned sound)
    refine ⟨some selection, ?_⟩
    rw [CentralizedCoordinator.coordinate, if_neg empty, selected]
    rfl

/-- No handler fails on the events of a well formed configuration. -/
theorem handle_total {config : Config} (known : Wellformed net config) {choice : Choice}
    (sound : (config.state.problem net).Sound choice.solutions) {event : Event}
    (flying : ∀ content, event = .message content → content ∈ config.pending) :
    ∃ reaction, handle net choice event config.state = .ok reaction := by
  cases event with
  | sourceTick device => exact ⟨_, rfl⟩
  | localTick device => exact ⟨_, rfl⟩
  | coordinatorTick =>
    simp only [handle, CentralizedCoordinator.handleTick]
    split
    · exact ⟨_, rfl⟩
    · obtain ⟨outcome, solved⟩ := coordinate_total sound
      rw [State.problem] at solved
      rw [emit_participant, solved]
      cases outcome <;> exact ⟨_, rfl⟩
  | message content =>
    cases content with
    | sync ctx => exact ⟨_, rfl⟩
    | action device actions =>
      obtain ⟨plan, carried, _, rfl⟩ := known.actions device actions (flying _ rfl)
      obtain ⟨gates, _, rewired, _⟩ := handleAction_plan carried known.agree device
      simp only [handle, rewired]
      exact ⟨_, rfl⟩
    | job job => exact ⟨_, rfl⟩

end FogNetProof.Runs
