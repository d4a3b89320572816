import FogNet.Kernel.Agenda
import FogNet.System.Reactions
import FogNet.System.Simulation

namespace FogNetModel

open Kernel

/-- What the handler of an event can ask for, and after which delay. -/
inductive Asks (choice : Choice) (state : State) : Event → Nat × Event → Prop where
  | again {timer : Event} (isTimer : timer.toMessage = none) : Asks choice state timer (choice.interval, timer)
  | job {sender arrival : Device} :
      Asks choice state (.sourceTick sender) (0, .message (.job ⟨sender, arrival⟩))
  | report {device : Device} (mobile : device.Mobile) :
      Asks choice state (.localTick device) (channelDelay, .message (.sync (device.report state)))
  | action {device : Device} {actions : List Char} :
      Asks choice state .coordinatorTick (channelDelay, .message (.action device actions))
  | forward {job : Job} {next : InGate}
      (onward : state.gates.nextGate (.componentOut job.arrival) = some next) :
      Asks choice state (.message (.job job)) (0, .message (.job ⟨job.arrival, next.device⟩))

/-- An event as a timed run has handled it: when, with what from outside, on which state, and what
    its module did. -/
structure Moment where
  time : Nat
  event : Event
  choice : Choice
  met : State
  reaction : Reaction

namespace Moment

def entry (moment : Moment) : Nat × Event := (moment.time, moment.event)

def asked (moment : Moment) : List (Nat × Event) := dueAfter moment.time moment.reaction.scheduled

def labels (moment : Moment) : List Label :=
  [.move moment.met.position, moment.event.label moment.choice]

end Moment

/-- The earliest event is handled as the moment tells. -/
structure Simulation.Handles (net : FogNetwork) (sim : Simulation) (moment : Moment) (after : Simulation) :
    Prop where
  stationary : ∀ device, ¬ device.Mobile → moment.met.position device = sim.state.position device
  met : moment.met = { sim.state with position := moment.met.position }
  sound : (moment.met.problem net).Sound moment.choice.solutions
  handled : handle net moment.choice moment.event moment.met = .ok moment.reaction
  became : ∃ rest, sim.events = moment.entry :: rest ∧ after = {
    now := moment.time
    events := scheduleAll moment.time moment.reaction.scheduled rest
    state := moment.reaction.state
    trace := sim.trace ++ moment.reaction.trace }

/-- The next moment of a run in which no host moves. -/
def Simulation.turn (net : FogNetwork) (sim : Simulation) (choice : Choice) :
    Option (Moment × Simulation) :=
  match sim.events with
  | [] => none
  | (time, event) :: rest =>
    if (sim.state.problem net).Sound choice.solutions then
      (handle net choice event sim.state).toOption.map fun reaction =>
        (⟨time, event, choice, sim.state, reaction⟩, {
          now := time
          events := scheduleAll time reaction.scheduled rest
          state := reaction.state
          trace := sim.trace ++ reaction.trace })
    else none

def Simulation.record (net : FogNetwork) (sim : Simulation) : List Choice → Option (List Moment × Simulation)
  | [] => some ([], sim)
  | choice :: choices => do
    let (moment, after) ← sim.turn net choice
    let (moments, finish) ← after.record net choices
    return (moment :: moments, finish)

/-- A timed run from the start, with the moments of its events in the order of their handling. -/
def TimedRun (net : FogNetwork) (position : Device → Coord) (moments : List Moment) (sim : Simulation) :
    Prop :=
  Labelled (Simulation.Handles net) (Simulation.start net position) moments sim

namespace FogNetwork

def asked (net : FogNetwork) (moments : List Moment) : List (Nat × Event) :=
  net.initialEvents ++ moments.flatMap Moment.asked

end FogNetwork

/-- The delay between sending a message and its arrival: that of the channels of the network, none
    over the links between applications. -/
def Message.delay : Message → Nat
  | .sync _ => channelDelay
  | .action _ _ => channelDelay
  | .job _ => 0

def Moment.sent (moment : Moment) : List (Nat × Message) :=
  moment.reaction.messages.map fun content => (moment.time + content.delay, content)

def arrivals (entries : List (Nat × Event)) : List (Nat × Message) :=
  entries.filterMap fun entry => entry.2.toMessage.map fun content => (entry.1, content)

/-- The messages of a lane that have arrived, then those under way, with their times of arrival. -/
def onLane (lane : Message → Bool) (moments : List Moment) (sim : Simulation) : List (Nat × Message) :=
  (arrivals (moments.map Moment.entry)).filter (fun arrival => lane arrival.2) ++
    (arrivals sim.events).filter fun arrival => lane arrival.2

end FogNetModel

namespace FogNetProof.Runs

open FogNetModel Kernel FogNetProof.Plans

variable {net : FogNetwork} {position : Device → Coord} {moments : List Moment} {sim : Simulation}

theorem step_handles {before after : Simulation} {input : Input} (step : before.Step net input after) :
    ∃ moment, before.Handles net moment after := by
  have advanced := step.advanced
  unfold Simulation.advance at advanced
  cases events : before.events with
  | nil =>
    rw [events] at advanced
    cases advanced
  | cons entry rest =>
    rw [events] at advanced
    obtain ⟨reaction, handled, returned⟩ := bind_ok advanced
    cases returned
    exact ⟨⟨entry.1, entry.2, input.choice, before.met input, reaction⟩, step.stationary, rfl, step.sound,
      handled, rest, events, rfl⟩

theorem handles_step {before after : Simulation} {moment : Moment} (handles : before.Handles net moment after) :
    before.Step net ⟨moment.met.position, moment.choice⟩ after := by
  obtain ⟨rest, events, rfl⟩ := handles.became
  have met : before.met ⟨moment.met.position, moment.choice⟩ = moment.met := handles.met.symm
  refine ⟨handles.stationary, met ▸ handles.sound, ?_⟩
  have handled : handle net moment.choice moment.entry.2
      (before.met ⟨moment.met.position, moment.choice⟩) = .ok moment.reaction := met ▸ handles.handled
  rw [Simulation.advance, events]
  dsimp only
  rw [handled]
  rfl

/-- The runs of the timed steps are the timed runs. -/
theorem run_iff_timed : Run (Simulation.Step net) (fun _ _ => True) (Simulation.start net position) sim ↔
    ∃ moments, TimedRun net position moments sim := by
  constructor
  · intro run
    induction run with
    | refl => exact ⟨[], Labelled.refl⟩
    | tail _ last ih =>
      obtain ⟨moments, timed⟩ := ih
      obtain ⟨input, _, step⟩ := last
      obtain ⟨moment, handles⟩ := step_handles step
      exact ⟨moments ++ [moment], timed.snoc handles⟩
  · intro timed
    obtain ⟨moments, timed⟩ := timed
    induction timed with
    | refl => exact Relation.ReflTransGen.refl
    | snoc _ handles ih => exact Run.snoc ih trivial (handles_step handles)

theorem turn_handles {before after : Simulation} {choice : Choice} {moment : Moment}
    (turned : before.turn net choice = some (moment, after)) : before.Handles net moment after := by
  unfold Simulation.turn at turned
  split at turned
  · cases turned
  · rename_i time event rest events
    simp only [Option.ite_none_right_eq_some, Option.map_eq_some_iff, toOption_eq_some] at turned
    obtain ⟨sound, reaction, handled, same⟩ := turned
    cases same
    exact ⟨fun _ _ => rfl, rfl, sound, handled, rest, events, rfl⟩

theorem record_run {start finish : Simulation} {choices : List Choice}
    (recorded : start.record net choices = some (moments, finish)) :
    Labelled (Simulation.Handles net) start moments finish := by
  induction choices generalizing start moments with
  | nil =>
    cases recorded
    exact Labelled.refl
  | cons choice choices ih =>
    obtain ⟨⟨moment, after⟩, turned, recorded⟩ := Option.bind_eq_some_iff.mp recorded
    obtain ⟨⟨later, last⟩, rest, returned⟩ := Option.bind_eq_some_iff.mp recorded
    cases returned
    exact (Labelled.refl.snoc (turn_handles turned)).append (ih rest)

theorem record_still {start finish : Simulation} {choices : List Choice}
    (recorded : start.record net choices = some (moments, finish)) :
    (∀ moment ∈ moments, moment.met.position = start.state.position) ∧
      finish.state.position = start.state.position := by
  induction choices generalizing start moments with
  | nil =>
    cases recorded
    exact ⟨by simp, rfl⟩
  | cons choice choices ih =>
    obtain ⟨⟨moment, after⟩, turned, recorded⟩ := Option.bind_eq_some_iff.mp recorded
    obtain ⟨⟨later, last⟩, rest, returned⟩ := Option.bind_eq_some_iff.mp recorded
    cases returned
    have met : moment.met.position = start.state.position ∧ after.state.position = start.state.position := by
      unfold Simulation.turn at turned
      split at turned
      · cases turned
      · simp only [Option.ite_none_right_eq_some, Option.map_eq_some_iff, toOption_eq_some] at turned
        obtain ⟨_, reaction, handled, same⟩ := turned
        cases same
        exact ⟨rfl, handle_position handled⟩
    obtain ⟨still, finished⟩ := ih rest
    refine ⟨fun other member => ?_, finished.trans met.2⟩
    rcases List.mem_cons.mp member with rfl | isLater
    · exact met.1
    · exact (still other isLater).trans met.2

/-- The intervals of a run of three hosts up to its third round, and the solutions of its rounds. -/
def opening : List Choice :=
  [⟨5 * channelDelay, []⟩, ⟨50 * channelDelay, []⟩, ⟨5 * channelDelay, []⟩, ⟨50 * channelDelay, []⟩,
    ⟨5 * channelDelay, []⟩, ⟨50 * channelDelay, []⟩, ⟨3 * channelDelay, []⟩, ⟨0, []⟩,
    ⟨3 * channelDelay, [(0, 1)]⟩, ⟨0, []⟩, ⟨0, []⟩, ⟨0, []⟩, ⟨5 * channelDelay, []⟩, ⟨0, []⟩,
    ⟨3 * channelDelay, [(0, 1)]⟩]

def opened (check : List Moment × Simulation → Bool) : Option Bool :=
  ((Simulation.start (.ofSizes 1 1 1) fun _ => ⟨0, 0⟩).record (.ofSizes 1 1 1) opening).map check

theorem opening_run {check : List Moment × Simulation → Bool} (shown : opened check = some true) :
    ∃ moments sim, TimedRun (.ofSizes 1 1 1) (fun _ => ⟨0, 0⟩) moments sim ∧
      (∀ moment ∈ moments, moment.met.position = fun _ => ⟨0, 0⟩) ∧
      sim.state.position = (fun _ => ⟨0, 0⟩) ∧ check (moments, sim) = true := by
  obtain ⟨⟨moments, sim⟩, recorded, checked⟩ := Option.map_eq_some_iff.mp shown
  obtain ⟨still, finished⟩ := record_still recorded
  exact ⟨moments, sim, record_run recorded, still, finished, checked⟩

theorem initialEvents_now (net : FogNetwork) : ∀ entry ∈ net.initialEvents, entry.1 = 0 := by
  intro entry member
  obtain ⟨event, _, rfl⟩ := List.mem_map.mp member
  rfl

theorem initialEvents_chronological (net : FogNetwork) : Chronological net.initialEvents := by
  apply List.pairwise_of_forall_mem_list
  intro first isFirst second _
  rw [initialEvents_now net first isFirst]
  exact Nat.zero_le _

theorem asked_snoc (net : FogNetwork) (moments : List Moment) (moment : Moment) :
    net.asked (moments ++ [moment]) = net.asked moments ++ moment.asked := by
  simp [FogNetwork.asked]

/-- Every event asked for is handled exactly once and in its turn, or is still to come. -/
theorem run_accounted (run : TimedRun net position moments sim) :
    Accounted (net.asked moments) (moments.map Moment.entry) sim.now sim.events := by
  induction run with
  | refl =>
    simp only [FogNetwork.asked, List.flatMap_nil, List.append_nil]
    exact accounted_start (initialEvents_chronological net) fun _ _ => Nat.zero_le _
  | @snoc moments before after moment run handles ih =>
    obtain ⟨rest, events, rfl⟩ := handles.became
    rw [asked_snoc, List.map_append]
    exact (events ▸ ih).turn moment.reaction.scheduled

theorem run_owned (run : TimedRun net position moments sim) : sim.Owned net := by
  induction run with
  | refl => exact fun entry member _ => start_timers net position entry member
  | snoc run handles ih =>
    obtain ⟨_, _, _, _, owned, _⟩ := advance_refines ih (handles_step handles)
    exact owned

theorem run_labels (run : TimedRun net position moments sim) :
    Labelled (Step net) (Config.initial position) (moments.flatMap Moment.labels) sim.config := by
  induction run with
  | refl =>
    rw [start_config]
    exact Labelled.refl
  | @snoc moments before after moment run handles ih =>
    obtain ⟨time, event, events, next, _, stepped⟩ := advance_refines (run_owned run) (handles_step handles)
    obtain ⟨rest, isNext, _⟩ := handles.became
    cases next.symm.trans isNext
    have moved : Step net before.config (.move moment.met.position)
        { before.config with state := before.met ⟨moment.met.position, moment.choice⟩ } :=
      Step.move handles.stationary
    rw [List.flatMap_append, List.flatMap_singleton]
    exact ih.append ((Labelled.refl.snoc moved).snoc stepped)

theorem run_reachable (run : TimedRun net position moments sim) : Reachable net sim.config :=
  ⟨position, (run_labels run).run fun _ _ _ => trivial⟩

theorem run_handled (run : TimedRun net position moments sim) :
    ∀ moment ∈ moments, handle net moment.choice moment.event moment.met = .ok moment.reaction := by
  induction run with
  | refl => simp
  | snoc _ handles ih =>
    intro moment member
    rcases List.mem_append.mp member with old | new
    · exact ih moment old
    · exact List.mem_singleton.mp new ▸ handles.handled

theorem run_handles (run : TimedRun net position moments sim) {moment : Moment} (member : moment ∈ moments) :
    ∃ earlier later before after, moments = earlier ++ moment :: later ∧
      TimedRun net position earlier before ∧ before.Handles net moment after := by
  obtain ⟨earlier, later, whole⟩ := List.append_of_mem member
  obtain ⟨before, after, first, handles, _⟩ := Labelled.split (whole ▸ run)
  exact ⟨earlier, later, before, after, whole, first, handles⟩

theorem run_trace (run : TimedRun net position moments sim) :
    sim.trace = moments.flatMap fun moment => moment.reaction.trace := by
  induction run with
  | refl => rfl
  | snoc _ handles ih =>
    obtain ⟨rest, _, rfl⟩ := handles.became
    rw [List.flatMap_append, List.flatMap_singleton, ← ih]

theorem met_gates {before after : Simulation} {moment : Moment} (handles : before.Handles net moment after) :
    moment.met.gates = before.state.gates := by
  rw [handles.met]

theorem events_from {before after : Simulation} {moment : Moment}
    (run : TimedRun net position moments before) (handles : before.Handles net moment after) :
    ∀ entry ∈ before.events, moment.time ≤ entry.1 := by
  obtain ⟨rest, events, _⟩ := handles.became
  have accounted := events ▸ run_accounted run
  rw [events]
  exact accounted.next_first

/-- At a moment of a run everything that was due earlier has been handled. -/
theorem handled_before {before after : Simulation} {moment : Moment}
    (run : TimedRun net position moments before) (handles : before.Handles net moment after)
    {entry : Nat × Event} (asked : entry ∈ net.asked moments) (due : entry.1 < moment.time) :
    ∃ earlier ∈ moments, earlier.entry = entry := by
  exact List.mem_map.mp ((run_accounted run).due_handled (events_from run handles) asked due)

theorem moment_asked {moment : Moment} (member : moment ∈ moments) {delay : Nat} {event : Event}
    (scheduled : (delay, event) ∈ moment.reaction.scheduled) :
    (moment.time + delay, event) ∈ net.asked moments :=
  List.mem_append_right _ (List.mem_flatMap.mpr ⟨moment, member, List.mem_map_of_mem scheduled⟩)

theorem run_chronological (run : TimedRun net position moments sim) :
    moments.Pairwise fun first second => first.time ≤ second.time := by
  have handled := (List.pairwise_append.mp (run_accounted run).chronological).1
  rw [List.pairwise_map] at handled
  exact handled

theorem handle_asks {choice : Choice} {event : Event} {state : State} {reaction : Reaction}
    (handled : handle net choice event state = .ok reaction) :
    ∀ entry ∈ reaction.scheduled, Asks choice state event entry := by
  have again : ∀ timer : Event, timer.toMessage = none →
      Asks choice state timer (choice.interval, timer) := fun _ isTimer => Asks.again isTimer
  cases handle_reacts handled with
  | @sent device => simpa using ⟨Asks.job, again (.sourceTick device) rfl⟩
  | reported mobile => simpa using ⟨again (.localTick _) rfl, Asks.report mobile⟩
  | planned => simpa using ⟨again .coordinatorTick rfl, fun device _ => Asks.action⟩
  | forwarded onward => simpa using Asks.forward onward
  | attempted | gaveUp => simpa using again (.sourceTick _) rfl
  | silent => simpa using again (.localTick _) rfl
  | waiting | unsolved => simpa using again .coordinatorTick rfl
  | asleep | stored | rewired | received => simp

theorem handle_delay {choice : Choice} {event : Event} {state : State} {reaction : Reaction}
    (handled : handle net choice event state = .ok reaction) {delay : Nat} {content : Message}
    (scheduled : (delay, .message content) ∈ reaction.scheduled) : delay = content.delay := by
  cases handle_asks handled _ scheduled with
  | again isTimer => cases isTimer
  | job | report | action | forward => rfl

theorem action_scheduled {choice : Choice} {event : Event} {state : State} {reaction : Reaction}
    (handled : handle net choice event state = .ok reaction) {delay : Nat} {device : Device}
    {actions : List Char} (scheduled : (delay, .message (.action device actions)) ∈ reaction.scheduled) :
    delay = channelDelay ∧ event = .coordinatorTick := by
  cases handle_asks handled _ scheduled with
  | again isTimer => cases isTimer
  | action => exact ⟨rfl, rfl⟩

theorem toMessage_eq_some {event : Event} {content : Message} :
    event.toMessage = some content ↔ event = .message content := by
  cases event <;> simp [Event.toMessage]

theorem arrivals_append (first second : List (Nat × Event)) :
    arrivals (first ++ second) = arrivals first ++ arrivals second := List.filterMap_append

theorem mem_arrivals {entries : List (Nat × Event)} {time : Nat} {content : Message} :
    (time, content) ∈ arrivals entries ↔ (time, .message content) ∈ entries := by
  simp only [arrivals, List.mem_filterMap, Option.map_eq_some_iff, toMessage_eq_some, Prod.mk.injEq]
  constructor
  · rintro ⟨⟨due, event⟩, member, other, rfl, rfl, rfl⟩
    exact member
  · exact fun member => ⟨_, member, content, rfl, rfl, rfl⟩

theorem arrivals_initialEvents (net : FogNetwork) : arrivals net.initialEvents = [] := by
  apply List.filterMap_eq_nil_iff.mpr
  intro entry member
  have timer := start_timers net (fun _ => ⟨0, 0⟩) entry member
  cases event : entry.2 with
  | message content => exact (event ▸ timer).elim
  | sourceTick | localTick | coordinatorTick => rfl

theorem arrivals_asked {moment : Moment}
    (delays : ∀ delay content, (delay, .message content) ∈ moment.reaction.scheduled →
      delay = content.delay) : arrivals moment.asked = moment.sent := by
  rw [arrivals, Moment.asked, dueAfter, List.filterMap_map, Moment.sent, Reaction.messages,
    List.map_filterMap]
  apply List.filterMap_congr
  intro entry member
  obtain ⟨delay, event⟩ := entry
  cases event with
  | message content => simp [Event.toMessage, delays delay content member]
  | sourceTick | localTick | coordinatorTick => rfl

section Lanes

variable {lane : Message → Bool} {delay : Nat}

def inLane (lane : Message → Bool) (entry : Nat × Event) : Bool := entry.2.toMessage.any lane

theorem arrivals_filter (lane : Message → Bool) (entries : List (Nat × Event)) :
    (arrivals entries).filter (fun arrival => lane arrival.2) = arrivals (entries.filter (inLane lane)) := by
  rw [arrivals, arrivals, List.filter_filterMap, List.filterMap_filter]
  apply List.filterMap_congr
  intro entry _
  cases isMessage : entry.2.toMessage with
  | none => simp [inLane, isMessage]
  | some content => simp [inLane, isMessage, Option.filter]

theorem lane_chronological (run : TimedRun net position moments sim)
    (oneDelay : ∀ content, lane content = true → content.delay = delay) :
    Chronological ((net.asked moments).filter (inLane lane)) := by
  have noInitial : net.initialEvents.filter (inLane lane) = [] := by
    apply List.filter_eq_nil_iff.mpr
    intro entry member
    have timer := List.filterMap_eq_nil_iff.mp (arrivals_initialEvents net) entry member
    simp only [Option.map_eq_none_iff] at timer
    simp [inLane, timer]
  have due : ∀ moment ∈ moments, ∀ entry ∈ moment.asked.filter (inLane lane),
      entry.1 = moment.time + delay := by
    intro moment member entry asked
    obtain ⟨isAsked, belongs⟩ := List.mem_filter.mp asked
    obtain ⟨delayed, scheduled, rfl⟩ := List.mem_map.mp isAsked
    obtain ⟨content, isMessage, isLane⟩ := (Option.any_eq_true _ _).mp belongs
    obtain ⟨delay, event⟩ := delayed
    obtain rfl := toMessage_eq_some.mp isMessage
    exact congrArg (moment.time + ·)
      ((handle_delay (run_handled run moment member) scheduled).trans (oneDelay content isLane))
  rw [FogNetwork.asked, List.filter_append, noInitial, List.nil_append, List.filter_flatMap, Chronological,
    List.pairwise_flatMap]
  constructor
  · intro moment member
    apply List.pairwise_of_forall_mem_list
    intro first isFirst second isSecond
    rw [due moment member first isFirst, due moment member second isSecond]
  · apply (run_chronological run).imp_of_mem
    intro _ _ isFirst isSecond before entry asked later askedLater
    rw [due _ isFirst entry asked, due _ isSecond later askedLater]
    omega

/-- Messages of one delay arrive in the order in which they were sent, none lost and none made up,
    each exactly its delay after its sending. -/
theorem lane_fifo (run : TimedRun net position moments sim)
    (oneDelay : ∀ content, lane content = true → content.delay = delay) :
    onLane lane moments sim = (moments.flatMap Moment.sent).filter fun arrival => lane arrival.2 := by
  have sent : arrivals (net.asked moments) = moments.flatMap Moment.sent := by
    rw [FogNetwork.asked, arrivals_append, arrivals_initialEvents, List.nil_append, arrivals,
      List.filterMap_flatMap]
    apply List.flatMap_congr
    intro moment member
    exact arrivals_asked fun _ _ scheduled => handle_delay (run_handled run moment member) scheduled
  rw [onLane, ← sent, arrivals_filter, arrivals_filter, arrivals_filter, ← arrivals_append,
    (run_accounted run).fifo (lane_chronological run oneDelay)]

end Lanes

end FogNetProof.Runs
