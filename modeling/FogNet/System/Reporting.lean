import FogNet.System.Participants
import FogNet.System.Timers

namespace FogNetModel

open Kernel

def Event.toReport : Event → Option ContextSync
  | .message (.sync ctx) => some ctx
  | _ => none

def isReport (device : Device) : Message → Bool
  | .sync ctx => ctx.device = device.getFullName
  | _ => false

/-- The stored reports of a state met at some time: each is where its host was at one of its ticks,
    not younger than the channel's delay and not older than `bound` beyond it. -/
def FreshReports (moments : List Moment) (bound time : Nat) (state : State) : Prop :=
  ∀ saved ∈ state.participant, ∃ device, ∃ told ∈ moments, told.event = .localTick device ∧
    saved.ctx = device.report told.met ∧ told.time + channelDelay ≤ time ∧
    time ≤ told.time + channelDelay + bound

end FogNetModel

namespace FogNetProof.Runs

open FogNetModel FogNetModel.CentralizedCoordinator Kernel FogNetProof.Names FogNetProof.Plans
  FogNetProof.Rounds

variable {net : FogNetwork} {position : Device → Coord} {moments : List Moment} {sim : Simulation}

theorem reports_labels (moments : List Moment) :
    reports (moments.flatMap Moment.labels) = moments.filterMap fun moment => moment.event.toReport := by
  induction moments with
  | nil => rfl
  | cons moment moments ih =>
    have here : reports moment.labels = moment.event.toReport.toList := by
      unfold Moment.labels
      cases moment.event with
      | message content => cases content <;> rfl
      | sourceTick | localTick | coordinatorTick => rfl
    rw [List.flatMap_cons, reports_append, ih, here, List.filterMap_cons]
    cases moment.event.toReport <;> rfl

theorem run_participant (run : TimedRun net position moments sim) :
    (∀ ctx ∈ moments.filterMap fun moment => moment.event.toReport, net.Reports ctx) ∧
      sim.state.participant = stored (moments.filterMap fun moment => moment.event.toReport) := by
  have labelled := run_stored (run_labels run)
  rwa [reports_labels] at labelled

theorem met_participant {before after : Simulation} {moment : Moment}
    (handles : before.Handles net moment after) :
    moment.met.participant = before.state.participant := by
  rw [handles.met]

theorem local_scheduled {device : Device} (mobile : device.Mobile) {choice : Choice} {state : State}
    {reaction : Reaction} (handled : handle net choice (.localTick device) state = .ok reaction) :
    (channelDelay, .message (.sync (device.report state))) ∈ reaction.scheduled := by
  cases handle_reacts handled with
  | reported => simp
  | silent immobile => exact absurd mobile immobile

/-- No message arrives before its delay has passed since the start. -/
theorem message_late (run : TimedRun net position moments sim) {entry : Nat × Event}
    (asked : entry ∈ net.asked moments) {content : Message} (isMessage : entry.2 = .message content) :
    content.delay ≤ entry.1 := by
  rcases List.mem_append.mp asked with initial | later
  · have timer := start_timers net position entry initial
    rw [isMessage] at timer
    exact timer.elim
  · obtain ⟨moment, member, isAsked⟩ := List.mem_flatMap.mp later
    obtain ⟨⟨delay, event⟩, scheduled, rfl⟩ := List.mem_map.mp isAsked
    obtain rfl : event = .message content := isMessage
    rw [← handle_delay (run_handled run moment member) scheduled]
    exact Nat.le_add_left _ _

theorem participant_early (run : TimedRun net position moments sim) (early : sim.now < channelDelay) :
    sim.state.participant = [] := by
  have none : moments.filterMap (fun moment => moment.event.toReport) = [] := by
    apply List.filterMap_eq_nil_iff.mpr
    intro moment member
    have accounted := run_accounted run
    have entry := List.mem_map_of_mem (f := Moment.entry) member
    have asked := accounted.conserved.subset (List.mem_append_left _ entry)
    have past := accounted.past _ entry
    cases event : moment.event with
    | message content =>
      have isMessage : moment.entry.2 = .message content := event
      have late := message_late run asked isMessage
      cases content with
      | sync ctx => exact absurd (Nat.lt_of_le_of_lt past early) (Nat.not_lt.mpr late)
      | action | job => rfl
    | sourceTick | localTick | coordinatorTick => rfl
  rw [(run_participant run).2, none]
  rfl

theorem reported_before {before after : Simulation} {moment : Moment}
    (run : TimedRun net position moments before) (handles : before.Handles net moment after)
    (late : channelDelay < moment.time) {device : Device} (held : net.Holds device)
    (mobile : device.Mobile) :
    ∃ ctx ∈ moments.filterMap fun moment => moment.event.toReport, ctx.device = device.getFullName := by
  have initial : (0, .localTick device) ∈ net.asked moments :=
    List.mem_append_left _ (List.mem_map_of_mem (mem_initializeTimers.mpr held))
  obtain ⟨tick, ticked, isTick⟩ := handled_before run handles initial (Nat.zero_lt_of_lt late)
  obtain ⟨time, event⟩ := Prod.mk.inj isTick
  have handled := run_handled run tick ticked
  rw [event] at handled
  have asked : (tick.time + channelDelay, _) ∈ net.asked moments :=
    moment_asked ticked (local_scheduled mobile handled)
  rw [time, Nat.zero_add] at asked
  obtain ⟨arrival, arrived, isArrival⟩ := handled_before run handles asked late
  refine ⟨device.report tick.met, List.mem_filterMap.mpr ⟨arrival, arrived, ?_⟩, rfl⟩
  rw [show arrival.event = .message (.sync (device.report tick.met)) from congrArg Prod.snd isArrival]
  rfl

theorem participant_late {before after : Simulation} {moment : Moment}
    (run : TimedRun net position moments before) (handles : before.Handles net moment after)
    (late : channelDelay < moment.time) : moment.met.participant.length = net.numHosts := by
  obtain ⟨reported, holds⟩ := run_participant run
  rw [met_participant handles, holds, stored_full_iff reported]
  exact fun device held mobile => reported_before run handles late held mobile

theorem guarded_early {choice : Choice} {state : State} {reaction : Reaction}
    (handled : handle net choice .coordinatorTick state = .ok reaction)
    (partly : state.participant.length ≠ net.numHosts) : reaction.trace = [] ∧ reaction.state = state := by
  cases handle_reacts handled with
  | waiting => exact ⟨rfl, rfl⟩
  | unsolved full | planned full => exact absurd full partly

theorem guarded_late {choice : Choice} {state : State} {reaction : Reaction}
    (handled : handle net choice .coordinatorTick state = .ok reaction)
    (full : state.participant.length = net.numHosts) :
    .abratioall (ratio state.listener) ∈ reaction.trace := by
  cases handle_reacts handled with
  | waiting partly => exact absurd full partly
  | unsolved | planned => simp

/-- Rounds before the channels' delay do nothing in a network with mobile hosts, and all rounds after
    it pass the guard. -/
theorem guard_opens (run : TimedRun net position moments sim) :
    ∀ moment ∈ moments, moment.event = .coordinatorTick →
      (moment.time < channelDelay → 0 < net.numHosts →
        moment.reaction.trace = [] ∧ moment.reaction.state = moment.met) ∧
      (channelDelay < moment.time → .abratioall (ratio moment.met.listener) ∈ moment.reaction.trace) := by
  intro moment member isRound
  obtain ⟨earlier, later, before, after, whole, first, handles⟩ := run_handles run member
  have handled := handles.handled
  rw [isRound] at handled
  refine ⟨fun early some => guarded_early handled ?_, fun late => guarded_late handled ?_⟩
  · obtain ⟨rest, events, _⟩ := handles.became
    have now : before.now ≤ moment.time := (run_accounted first).future _ (events ▸ List.mem_cons_self)
    rw [met_participant handles, participant_early first (Nat.lt_of_le_of_lt now early)]
    exact Nat.ne_of_lt some
  · exact participant_late first handles late

theorem guard_opens_opening :
    ∃ moments sim round, TimedRun (.ofSizes 1 1 1) (fun _ => ⟨0, 0⟩) moments sim ∧ round ∈ moments ∧
      round.event = .coordinatorTick ∧ channelDelay < round.time ∧
      .abratioall (ratio round.met.listener) ∈ round.reaction.trace := by
  have shown : opened (fun run => decide (∃ round ∈ run.1,
      round.event = .coordinatorTick ∧ channelDelay < round.time)) = some true := by decide +kernel
  obtain ⟨moments, sim, run, _, _, checked⟩ := opening_run shown
  obtain ⟨round, member, isRound, late⟩ : ∃ round ∈ moments,
      round.event = .coordinatorTick ∧ channelDelay < round.time := of_decide_eq_true checked
  exact ⟨moments, sim, round, run, member, isRound, late, (guard_opens run round member isRound).2 late⟩

section Device

variable {device : Device}

theorem messages_silent {choice : Choice} {event : Event} {state : State} {reaction : Reaction}
    (handled : handle net choice event state = .ok reaction) (other : event ≠ .localTick device) :
    ∀ content ∈ reaction.messages, isReport device content = false := by
  intro content sent
  obtain ⟨⟨delay, scheduled⟩, member, isMessage⟩ := List.mem_filterMap.mp sent
  obtain rfl := toMessage_eq_some.mp isMessage
  cases handle_asks handled _ member with
  | again isTimer => cases isTimer
  | @report reporter mobile =>
    have different : reporter ≠ device := fun same => other (congrArg Event.localTick same)
    simpa [isReport, Device.report] using different
  | job | action | forward => rfl

theorem local_messages (mobile : device.Mobile) {choice : Choice} {state : State} {reaction : Reaction}
    (handled : handle net choice (.localTick device) state = .ok reaction) :
    reaction.messages = [.sync (device.report state)] := by
  cases handle_reacts handled with
  | reported => rfl
  | silent immobile => exact absurd mobile immobile

/-- The reports of a mobile host leave at the ticks of its coordinator and nowhere else. -/
theorem sent_reports (run : TimedRun net position moments sim) (mobile : device.Mobile) :
    (moments.flatMap Moment.sent).filter (fun arrival => isReport device arrival.2) =
      (moments.filter fun moment => moment.event = .localTick device).map fun moment =>
        (moment.time + channelDelay, .sync (device.report moment.met)) := by
  have handled := run_handled run
  clear run
  induction moments with
  | nil => rfl
  | cons moment moments ih =>
    have rest := ih fun later member => handled later (by simp [member])
    have here := handled moment (by simp)
    rw [List.flatMap_cons, List.filter_append, rest, List.filter_cons]
    by_cases ticks : moment.event = .localTick device
    · rw [if_pos (by simpa using ticks), List.map_cons]
      rw [ticks] at here
      simp [Moment.sent, local_messages mobile here, isReport, Device.report, Message.delay]
    · have noReport : moment.sent.filter (fun arrival => isReport device arrival.2) = [] := by
        apply List.filter_eq_nil_iff.mpr
        intro arrival member
        obtain ⟨content, isMessage, rfl⟩ := List.mem_map.mp member
        simp [messages_silent here ticks content isMessage]
      rw [noReport, if_neg (by simpa using ticks), List.nil_append]

theorem arrived_reports (device : Device) (moments : List Moment) :
    ((arrivals (moments.map Moment.entry)).filter fun arrival => isReport device arrival.2).map Prod.snd =
      ((moments.filterMap fun moment => moment.event.toReport).filter fun ctx =>
        ctx.device = device.getFullName).map Message.sync := by
  rw [arrivals, List.filterMap_map, List.filter_filterMap, List.map_filterMap, List.filter_filterMap,
    List.map_filterMap]
  apply List.filterMap_congr
  intro moment _
  simp only [Function.comp_apply, Moment.entry]
  cases moment.event with
  | message content =>
    cases content with
    | sync ctx =>
      simp only [Event.toMessage, Event.toReport, Option.map_some, Option.filter_some, isReport]
      split <;> rfl
    | action | job => rfl
  | sourceTick | localTick | coordinatorTick => rfl

theorem isReport_delay (device : Device) :
    ∀ content, isReport device content = true → content.delay = channelDelay := by
  intro content reported
  cases content with
  | sync ctx => rfl
  | action | job => cases reported

/-- The last report of a host that has arrived is that of one of its ticks, and those of its later
    ticks are under way. -/
theorem last_report (run : TimedRun net position moments sim) (mobile : device.Mobile) {ctx : ContextSync}
    (last : lastReport (moments.filterMap fun moment => moment.event.toReport) device.getFullName =
      some ctx) :
    ∃ earlier told later, moments.filter (fun moment => moment.event = .localTick device) =
        earlier ++ told :: later ∧ ctx = device.report told.met ∧
      (∃ arrival ∈ moments, arrival.time = told.time + channelDelay) ∧
      ∀ next ∈ later, (next.time + channelDelay, .message (.sync (device.report next.met))) ∈ sim.events := by
  have fifo := lane_fifo run (isReport_delay device)
  rw [onLane, sent_reports run mobile] at fifo
  have isLast := congrArg List.getLast? (arrived_reports device moments)
  unfold lastReport at last
  rw [List.getLast?_map, List.getLast?_map, last, Option.map_some, Option.map_eq_some_iff] at isLast
  obtain ⟨arrival, isArrival, isReport⟩ := isLast
  obtain ⟨front, received⟩ := List.getLast?_eq_some_iff.mp isArrival
  have arrived : (arrival.1, arrival.2) ∈ arrivals (moments.map Moment.entry) :=
    List.mem_of_mem_filter (received ▸ List.mem_append_right _ (List.mem_singleton.mpr rfl))
  rw [received, List.append_assoc, List.singleton_append] at fifo
  obtain ⟨earlier, rest, ticks, _, follow⟩ := List.map_eq_append_iff.mp fifo.symm
  obtain ⟨told, later, rfl, isTold, waiting⟩ := List.map_eq_cons_iff.mp follow
  obtain ⟨moment, member, isMoment⟩ := List.mem_map.mp (mem_arrivals.mp arrived)
  cases isTold
  refine ⟨earlier, told, later, ticks, (Message.sync.inj isReport).symm,
    ⟨moment, member, congrArg Prod.fst isMoment⟩, fun next isNext => ?_⟩
  have flying := List.mem_of_mem_filter (waiting ▸ List.mem_map_of_mem isNext)
  exact mem_arrivals.mp flying

end Device

theorem fresh_reports {earlier : List Moment} {before after : Simulation} {moment : Moment}
    (first : TimedRun net position earlier before) (handles : before.Handles net moment after) {bound : Nat}
    (prompt : ∀ tick ∈ earlier, ∀ device, tick.event = .localTick device → tick.choice.interval ≤ bound) :
    FreshReports earlier bound moment.time moment.met := by
  obtain ⟨rest, events, _⟩ := handles.became
  have accounted := events ▸ run_accounted first
  have due : ∀ entry ∈ before.events, moment.time ≤ entry.1 := events ▸ accounted.next_first
  obtain ⟨reported, holds⟩ := run_participant first
  intro saved stored
  rw [met_participant handles, holds] at stored
  have known := registered_stored reported
  have last := (stored_lastReports _).latest saved stored
  obtain ⟨device, held, mobile, isName⟩ := known.reported saved stored
  rw [known.named saved stored, isName] at last
  obtain ⟨front, told, back, ticks, report, ⟨arrival, arrived, onTime⟩, flying⟩ :=
    last_report first mobile last
  have recurring : net.Recurring (.localTick device) := held
  have isTick : ∀ tick ∈ front ++ told :: back, tick ∈ earlier ∧ tick.event = .localTick device := by
    intro tick member
    rw [← ticks] at member
    simpa using member
  obtain ⟨toldEarlier, toldTick⟩ := isTick told (by simp)
  have interval := prompt told toldEarlier device toldTick
  have toldTime := tick_time recurring first ticks
  refine ⟨device, told, toldEarlier, toldTick, report, ?_, ?_⟩
  · rw [← onTime]
    exact Nat.le_trans (accounted.past arrival.entry (List.mem_map_of_mem arrived))
      (accounted.future _ List.mem_cons_self)
  · cases back with
    | nil =>
      -- the next tick is still to come
      have pending := pending_tick (.localTick device) recurring first
      have waits := List.mem_of_mem_filter (pending ▸ List.mem_singleton.mpr rfl)
      have bounded := due _ waits
      rw [intervals, ticks] at bounded
      simp only [List.map_append, List.map_cons, List.map_nil, List.sum_append, List.sum_cons,
        List.sum_nil] at bounded
      omega
    | cons next back =>
      rw [List.append_cons] at ticks
      have nextTime := tick_time recurring first ticks
      have bounded := due _ (flying next (by simp))
      simp only [List.map_append, List.map_cons, List.map_nil, List.sum_append, List.sum_cons,
        List.sum_nil] at nextTime bounded
      omega

/-- At every moment of a run whose local coordinators draw intervals of at most `bound`, each stored
    report is where its host was between one channel delay and `bound` more before. -/
theorem report_age (run : TimedRun net position moments sim) {bound : Nat}
    (prompt : ∀ moment ∈ moments, ∀ device, moment.event = .localTick device →
      moment.choice.interval ≤ bound)
    {earlier later : List Moment} {moment : Moment} (here : moments = earlier ++ moment :: later) :
    FreshReports earlier bound moment.time moment.met := by
  obtain ⟨before, after, first, handles, _⟩ := Labelled.split (here ▸ run)
  exact fresh_reports first handles fun tick member => prompt tick (here ▸ List.mem_append_left _ member)

theorem report_age_opening :
    ∃ moments sim earlier moment later, TimedRun (.ofSizes 1 1 1) (fun _ => ⟨0, 0⟩) moments sim ∧
      moments = earlier ++ moment :: later ∧ moment.met.participant.length = 1 ∧
      FreshReports earlier (50 * channelDelay) moment.time moment.met := by
  have shown : opened (fun run => decide ((∃ moment ∈ run.1, moment.met.participant.length = 1) ∧
      ∀ moment ∈ run.1, moment.choice.interval ≤ 50 * channelDelay)) = some true := by decide +kernel
  obtain ⟨moments, sim, run, _, _, checked⟩ := opening_run shown
  obtain ⟨⟨moment, member, full⟩, prompt⟩ := of_decide_eq_true checked
  obtain ⟨earlier, later, whole⟩ := List.append_of_mem member
  exact ⟨moments, sim, earlier, moment, later, run, whole, full,
    report_age run (fun tick handled _ _ => prompt tick handled) whole⟩

end FogNetProof.Runs
