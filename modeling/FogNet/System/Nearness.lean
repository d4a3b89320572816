import FogNet.System.Reporting
import FogNet.System.FreshLinks

namespace FogNetModel

open CentralizedCoordinator Kernel Numeric

/-- Between two moments no host moves faster than `speed` along an axis. -/
def SpeedLimit (speed : ℚ) (moments : List Moment) : Prop :=
  moments.Pairwise fun first second => ∀ device,
    |(second.met.position device).x - (first.met.position device).x| ≤ speed * (second.time - first.time) ∧
    |(second.met.position device).y - (first.met.position device).y| ≤ speed * (second.time - first.time)

def Coord.Closer (left right : Coord) (distance : ℚ) : Prop :=
  |left.x - right.x| < distance ∧ |left.y - right.y| < distance

end FogNetModel

namespace FogNetProof.Runs

open FogNetModel FogNetModel.CentralizedCoordinator Kernel Matching Numeric FogNetProof.Names
  FogNetProof.Plans FogNetProof.Rounds

variable {net : FogNetwork} {position : Device → Coord} {moments : List Moment} {sim : Simulation}

theorem closer_of_report {told now other moved : ℚ} (near : |truncate told - truncate other| ≤ 1000)
    (travelled : |now - told| ≤ moved) : |now - other| < 1002 + moved := by
  have close : |told - other| < ((1000 : ℕ) : ℚ) + 2 := close_of_truncate_close (by exact_mod_cast near)
  have path : |now - other| ≤ |now - told| + |told - other| := abs_sub_le now told other
  push_cast at close
  linarith

theorem closer_after {before now other : Coord} {distance moved : ℚ} (near : before.Closer other distance)
    (travelled : |now.x - before.x| ≤ moved ∧ |now.y - before.y| ≤ moved) :
    now.Closer other (distance + moved) := by
  have pathX : |now.x - other.x| ≤ |now.x - before.x| + |before.x - other.x| := abs_sub_le _ _ _
  have pathY : |now.y - other.y| ≤ |now.y - before.y| + |before.y - other.y| := abs_sub_le _ _ _
  obtain ⟨nearX, nearY⟩ := near
  constructor <;> linarith

theorem closer_of_reach {coord peerCoord : Coord} (near : ¬ outOfReach coord peerCoord) :
    coord.Closer peerCoord 1002 := by
  obtain ⟨nearX, nearY⟩ := not_or.mp near
  rw [not_lt, abs_sub_comm] at nearX nearY
  constructor <;> linarith

section Speed

variable {speed : ℚ} (nonneg : 0 ≤ speed)

include nonneg

/-- A host gets no farther than its speed allows until the last moment of a run. -/
theorem travelled {moment told : Moment} (limit : SpeedLimit speed (moments ++ [moment]))
    (member : told ∈ moments) {lapse : Nat} (recent : moment.time ≤ told.time + lapse) (device : Device) :
    |(moment.met.position device).x - (told.met.position device).x| ≤ speed * lapse ∧
      |(moment.met.position device).y - (told.met.position device).y| ≤ speed * lapse := by
  have here : moment ∈ [moment] := List.mem_singleton.mpr rfl
  have moved := (List.pairwise_append.mp limit).2.2 told member moment here device
  have elapsed : speed * ((moment.time : ℚ) - told.time) ≤ speed * lapse := by
    have late : (moment.time : ℚ) ≤ told.time + lapse := by exact_mod_cast recent
    apply mul_le_mul_of_nonneg_left _ nonneg
    linarith
  exact ⟨moved.1.trans elapsed, moved.2.trans elapsed⟩

theorem planned_near {before after : Simulation} {moment : Moment}
    (run : TimedRun net position moments before) (handles : before.Handles net moment after) {bound : Nat}
    (prompt : ∀ tick ∈ moments, ∀ device, tick.event = .localTick device → tick.choice.interval ≤ bound)
    (limit : SpeedLimit speed (moments ++ [moment])) {names : List (List Char × List Char)}
    (sent : .planSent names ∈ moment.reaction.trace) {edge : List Char × List Char} (planned : edge ∈ names) :
    ∃ sender receiver, edge = fullNames (sender, receiver) ∧
      (moment.met.position sender).Closer (moment.met.position receiver)
        (1002 + speed * (channelDelay + bound : ℕ)) := by
  obtain ⟨_, _, selection, selected, rfl, _⟩ := handle_planned handles.handled sent
  rw [(selected_eq (sound_inRange (problem_aligned _ _ _) handles.sound) selected).1] at planned
  obtain ⟨saved, stored, receiver, rfl, nearX, nearY⟩ := planned_close handles.sound planned
  have fresh := fresh_reports run handles prompt
  obtain ⟨sender, told, isEarlier, _, report, _, age⟩ := fresh saved stored
  have recent : moment.time ≤ told.time + (channelDelay + bound) := by omega
  have moved := travelled nonneg limit isEarlier recent sender
  refine ⟨sender, receiver, ?_, ?_⟩
  · rw [report]
    rfl
  · rw [report] at nearX nearY
    exact ⟨closer_of_report nearX moved.1, closer_of_report nearY moved.2⟩

/-- When the local coordinators draw intervals of at most `bound` and no host exceeds `speed`, the hosts
    of a planned pair stand within 1002 and what a host can move in `bound` and the channel's delay. -/
theorem planned_pairs_near (run : TimedRun net position moments sim) {bound : Nat}
    (prompt : ∀ moment ∈ moments, ∀ device, moment.event = .localTick device →
      moment.choice.interval ≤ bound)
    (limit : SpeedLimit speed moments) :
    ∀ moment ∈ moments, ∀ names, .planSent names ∈ moment.reaction.trace → ∀ edge ∈ names,
      ∃ sender receiver, edge = fullNames (sender, receiver) ∧
        (moment.met.position sender).Closer (moment.met.position receiver)
          (1002 + speed * (channelDelay + bound : ℕ)) := by
  intro moment member names sent edge planned
  obtain ⟨earlier, later, before, after, here, first, handles⟩ := run_handles run member
  rw [here, List.append_cons] at limit
  apply planned_near nonneg first handles _ (List.pairwise_append.mp limit).1 sent planned
  intro tick old
  exact prompt tick (here ▸ List.mem_append_left _ old)

end Speed

theorem speedLimit_still (run : TimedRun net position moments sim) {place : Device → Coord}
    (still : ∀ moment ∈ moments, moment.met.position = place) {speed : ℚ} (nonneg : 0 ≤ speed) :
    SpeedLimit speed moments := by
  apply (run_chronological run).imp_of_mem
  intro first second isFirst isSecond before device
  have elapsed : (0 : ℚ) ≤ speed * ((second.time : ℚ) - first.time) := by
    apply mul_nonneg nonneg
    rw [sub_nonneg]
    exact_mod_cast before
  rw [still first isFirst, still second isSecond]
  simpa using elapsed

theorem planned_pairs_near_opening :
    ∃ moments sim round, TimedRun (.ofSizes 1 1 1) (fun _ => ⟨0, 0⟩) moments sim ∧ round ∈ moments ∧
      ∃ sender receiver, fullNames (⟨.mobileHost, 0⟩, ⟨.fogHost, 0⟩) = fullNames (sender, receiver) ∧
        (round.met.position sender).Closer (round.met.position receiver)
          (1002 + 15 / 10 ^ 12 * (channelDelay + 50 * channelDelay : ℕ)) := by
  have shown : opened (fun run => decide ((∃ round ∈ run.1, .planSent
      [fullNames (⟨.mobileHost, 0⟩, ⟨.fogHost, 0⟩)] ∈ round.reaction.trace) ∧
      ∀ moment ∈ run.1, moment.choice.interval ≤ 50 * channelDelay)) = some true := by decide +kernel
  obtain ⟨moments, sim, run, still, _, checked⟩ := opening_run shown
  obtain ⟨⟨round, member, sent⟩, prompt⟩ := of_decide_eq_true checked
  have nonneg : (0 : ℚ) ≤ 15 / 10 ^ 12 := by norm_num
  have limit := speedLimit_still run still nonneg
  exact ⟨moments, sim, round, run, member, planned_pairs_near nonneg run
    (fun tick handled _ _ => prompt tick handled) limit round member _ sent _ (List.mem_singleton.mpr rfl)⟩

theorem run_fixed (run : TimedRun net position moments sim) {device : Device} (immobile : ¬ device.Mobile) :
    (∀ moment ∈ moments, moment.met.position device = position device) ∧
      sim.state.position device = position device := by
  induction run with
  | refl => exact ⟨by simp, rfl⟩
  | @snoc moments before after moment run handles ih =>
    have met : moment.met.position device = position device :=
      (handles.stationary device immobile).trans ih.2
    obtain ⟨rest, _, rfl⟩ := handles.became
    refine ⟨fun other member => ?_, ?_⟩
    · rcases List.mem_append.mp member with old | new
      · exact ih.1 other old
      · rw [List.mem_singleton.mp new]
        exact met
    · show moment.reaction.state.position device = position device
      rw [handle_position handles.handled]
      exact met

/-- A plan that arrives has been sent by a round, one channel delay before. -/
theorem action_sent {before after : Simulation} {arrival : Moment} (run : TimedRun net position moments before)
    (handles : before.Handles net arrival after) {device : Device} {plan : Plan}
    (isAction : arrival.event = .message (.action device (encode plan.names))) :
    ∃ earlier round later, moments = earlier ++ round :: later ∧
      round.time + channelDelay = arrival.time ∧ .planSent plan.names ∈ round.reaction.trace := by
  obtain ⟨rest, events, _⟩ := handles.became
  have asked : arrival.entry ∈ net.asked moments := by
    apply (run_accounted run).conserved.subset
    rw [events]
    simp
  have isEntry : arrival.entry = (arrival.time, .message (.action device (encode plan.names))) := by
    rw [Moment.entry, isAction]
  rw [isEntry] at asked
  rcases List.mem_append.mp asked with initial | later
  · exact (start_timers net position _ initial).elim
  · obtain ⟨round, member, isAsked⟩ := List.mem_flatMap.mp later
    obtain ⟨⟨delay, event⟩, scheduled, same⟩ := List.mem_map.mp isAsked
    obtain ⟨time, rfl⟩ := Prod.mk.inj same
    obtain ⟨earlier, follow, middle, next, whole, first, rounds⟩ := run_handles run member
    obtain ⟨rfl, _⟩ := action_scheduled rounds.handled scheduled
    refine ⟨earlier, round, follow, whole, time, ?_⟩
    have registered := (met_wellformed first rounds).registered
    have sound := rounds.sound
    have reacts := handle_reacts rounds.handled
    generalize round.reaction = reaction at reacts scheduled
    generalize round.event = event at reacts
    cases reacts with
    | @planned chosen _ _ selected =>
      obtain ⟨_, told⟩ : device ∈ net.actionGates ∧ chosen.coordinationResultsStr = encode plan.names := by
        simpa using scheduled
      obtain ⟨sent, names, text, _⟩ := selected_plan registered round.met.position sound selected
      have isText : encode plan.names = encode sent.names := told.symm.trans text
      rw [encode_unambiguous (names_clean plan) (names_clean sent) isText, ← names]
      simp
    | asleep | attempted | gaveUp | sent | reported | silent | waiting | unsolved | stored | rewired |
      received | forwarded => simp at scheduled

section Linked

variable {speed : ℚ} (nonneg : 0 ≤ speed) {bound : Nat} {sender receiver : Device}

include nonneg

theorem delivered_near (run : TimedRun net position moments sim)
    (reports : ∀ moment ∈ moments, ∀ device, moment.event = .localTick device →
      moment.choice.interval ≤ bound)
    (limit : SpeedLimit speed moments) {arrival : Moment} (member : arrival ∈ moments)
    (links : arrival.Links sender receiver) :
    ∃ round ∈ moments, round.time + channelDelay = arrival.time ∧
      (round.met.position sender).Closer (round.met.position receiver)
        (1002 + speed * (channelDelay + bound : ℕ)) := by
  obtain ⟨plan, isAction, planned⟩ := links
  obtain ⟨past, next, middle, _, split, early, arrives⟩ := run_handles run member
  obtain ⟨before, round, later, whole, time, sent⟩ := action_sent early arrives isAction
  obtain ⟨start, _, first, rounds, _⟩ := Labelled.split (whole ▸ early)
  subst whole
  subst split
  rw [List.append_assoc, List.cons_append, List.append_cons] at limit
  have prompt : ∀ tick ∈ before, ∀ device, tick.event = .localTick device → tick.choice.interval ≤ bound :=
    fun tick old => reports tick (by simp [old])
  obtain ⟨left, right, same, near⟩ := planned_near nonneg first rounds prompt
    (List.pairwise_append.mp limit).1 sent (mem_names.mpr planned)
  obtain ⟨isLeft, isRight⟩ : sender.getFullName = left.getFullName ∧
      receiver.getFullName = right.getFullName := Prod.mk.inj same
  rw [← getFullName_injective isLeft, ← getFullName_injective isRight] at near
  exact ⟨round, by simp, time, near⟩

/-- End to end: whatever is linked stands within 1002 and what a host can move in the time that a report,
    a plan and a tick of the source take. -/
theorem linked_pairs_near (run : TimedRun net position moments sim)
    (reports : ∀ moment ∈ moments, ∀ device, moment.event = .localTick device →
      moment.choice.interval ≤ bound) {period : Nat}
    (sources : ∀ moment ∈ moments, moment.event = .sourceTick sender → moment.choice.interval ≤ period)
    (limit : SpeedLimit speed moments) :
    ∀ moment ∈ moments, (sender, receiver) ∈ linkSet moment.met.gates →
      (moment.met.position sender).Closer (moment.met.position receiver)
        (1002 + speed * (2 * channelDelay + bound + period : ℕ)) := by
  intro moment member linked
  obtain ⟨earlier, later, before, after, here, first, handles⟩ := run_handles run member
  rw [met_gates handles] at linked
  obtain ⟨_, _, immobile⟩ := linked_hosts (reachable_wellformed (run_reachable first)) linked
  have fixed := (run_fixed run immobile).1
  subst here
  rw [List.append_cons] at limit
  have limit := (List.pairwise_append.mp limit).1
  have stands : ∀ told ∈ earlier, told.met.position receiver = moment.met.position receiver :=
    fun told old => (fixed told (by simp [old])).trans (fixed moment member).symm
  obtain ⟨renewal, old, recent, renews⟩ := link_renewal first linked
    (fun tick old => sources tick (by simp [old])) (events_from first handles)
  rcases renews with links | ⟨_, near⟩
  · obtain ⟨round, isEarlier, time, near⟩ := delivered_near nonneg first
      (fun tick old => reports tick (by simp [old])) (List.pairwise_append.mp limit).1 old links
    have lapse : moment.time ≤ round.time + (channelDelay + period) := by omega
    have moved := closer_after near (travelled nonneg limit isEarlier lapse sender)
    rw [stands round isEarlier] at moved
    have total : 1002 + speed * (2 * channelDelay + bound + period : ℕ) =
        1002 + speed * (channelDelay + bound : ℕ) + speed * (channelDelay + period : ℕ) := by
      push_cast
      ring
    exact total ▸ moved
  · have moved := closer_after (closer_of_reach near) (travelled nonneg limit old recent sender)
    rw [stands renewal old] at moved
    have room : speed * (period : ℕ) ≤ speed * (2 * channelDelay + bound + period : ℕ) := by
      apply mul_le_mul_of_nonneg_left _ nonneg
      exact_mod_cast Nat.le_add_left _ _
    exact ⟨moved.1.trans_le (add_le_add_right room _), moved.2.trans_le (add_le_add_right room _)⟩

end Linked

theorem linked_pairs_near_opening :
    ∃ moments sim moment, TimedRun (.ofSizes 1 1 1) (fun _ => ⟨0, 0⟩) moments sim ∧ moment ∈ moments ∧
      (⟨.mobileHost, 0⟩, ⟨.fogHost, 0⟩) ∈ linkSet moment.met.gates ∧
      (moment.met.position ⟨.mobileHost, 0⟩).Closer (moment.met.position ⟨.fogHost, 0⟩)
        (1002 + 15 / 10 ^ 12 * (2 * channelDelay + 50 * channelDelay + 5 * channelDelay : ℕ)) := by
  have shown : opened (fun run => decide ((∃ moment ∈ run.1,
      moment.met.gates.nextGate (.sourceOut ⟨.mobileHost, 0⟩) = some (.componentIn ⟨.fogHost, 0⟩)) ∧
      (∀ moment ∈ run.1, moment.choice.interval ≤ 50 * channelDelay) ∧
      ∀ moment ∈ run.1, moment.event = .sourceTick ⟨.mobileHost, 0⟩ →
        moment.choice.interval ≤ 5 * channelDelay)) = some true := by decide +kernel
  obtain ⟨moments, sim, run, still, _, checked⟩ := opening_run shown
  obtain ⟨⟨moment, member, linked⟩, reports, sources⟩ := of_decide_eq_true checked
  have nonneg : (0 : ℚ) ≤ 15 / 10 ^ 12 := by norm_num
  have limit := speedLimit_still run still nonneg
  exact ⟨moments, sim, moment, run, member, linked, linked_pairs_near nonneg run
    (fun tick handled _ _ => reports tick handled) sources limit moment member linked⟩

end FogNetProof.Runs
