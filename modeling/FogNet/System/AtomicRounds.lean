import FogNet.Matching.Updates
import FogNet.System.StaleLinks
import FogNet.System.Timers

namespace FogNetModel

open Kernel Matching

/-- What the links of the network undergo when every round is thought of as one step. -/
inductive LinkUpdate where
  | adopt (plan : Plan)
  | release (sender : Device)

namespace LinkUpdate

def toUpdate : LinkUpdate → Update OutGate InGate
  | adopt plan => .adopt (plan.pairs.map gatePair)
  | release sender => .release (.sourceOut sender)

def names : LinkUpdate → Option (List (List Char × List Char))
  | adopt plan => some plan.names
  | release _ => none

/-- The update leaves a link between the two hosts alone. -/
def Spares (sender receiver : Device) : LinkUpdate → Prop
  | adopt plan => sender ∉ plan.pairs.map Prod.fst ∧ receiver ∉ plan.pairs.map Prod.snd
  | release other => sender ≠ other

end LinkUpdate

def Observation.planned : Observation → Option (List (List Char × List Char))
  | .planSent names => some names
  | _ => none

/-- The pairs of a plan whose senders have not handled their messages yet. -/
def undelivered (plan : Plan) (pending : Multiset Message) : List (Device × Device) :=
  plan.pairs.filter fun pair => .action pair.1 (encode plan.names) ∈ pending

/-- The links become those of the updates once the pending pairs of the last plan are delivered. -/
structure Linearized (plan : Plan) (updates : List LinkUpdate) (config : Config) : Prop where
  agree : config.state.gates.Agree
  text : ∀ device actions, .action device actions ∈ config.pending → actions = encode plan.names
  links : agree.matching.assignAll ((undelivered plan config.pending).map gatePair) =
    PartialMatching.replay (updates.map LinkUpdate.toUpdate)
  sent : updates.filterMap LinkUpdate.names = config.trace.filterMap Observation.planned

/-- Rounds adopt plans, and a sender releases its link when its tick finds the receiver too far. -/
def Causes (config : Config) (label : Label) : LinkUpdate → Prop
  | .adopt _ => ∃ choice, label = .timer .coordinatorTick choice
  | .release sender => ∃ choice receiver, label = .timer (.sourceTick sender) choice ∧
      (sender, receiver) ∈ linkSet config.state.gates ∧
      outOfReach (config.state.position sender) (config.state.position receiver)

/-- Each tick of the coordinator draws a period longer than the channels' delay. -/
def LongPeriods (moments : List Moment) : Prop :=
  ∀ moment ∈ moments, moment.event = .coordinatorTick → channelDelay < moment.choice.interval

/-- The tick of a sender that finds the receiver of its link out of reach. -/
def Moment.Releases (moment : Moment) (sender : Device) : Prop :=
  moment.event = .sourceTick sender ∧ ∃ receiver, (sender, receiver) ∈ linkSet moment.met.gates ∧
    outOfReach (moment.met.position sender) (moment.met.position receiver)

/-- The run as a history of atomic rounds: the plans sent, in order, and links given up between
    them. Whenever no action message is in flight, exactly the links that a plan gave and that
    nothing later has touched are standing. -/
structure Atomic (moments : List Moment) (updates : List LinkUpdate) (sim : Simulation) : Prop where
  sent : updates.filterMap LinkUpdate.names = sim.trace.filterMap Observation.planned
  released : ∀ sender, .release sender ∈ updates → ∃ moment ∈ moments, moment.Releases sender
  standing : Settled sim.config → ∀ sender receiver, (sender, receiver) ∈ linkSet sim.state.gates ↔
    ∃ earlier plan later, updates = earlier ++ .adopt plan :: later ∧ (sender, receiver) ∈ plan.pairs ∧
      ∀ update ∈ later, update.Spares sender receiver

/-- A moment adds at most one update: the plan that it sends, or the release of the link that its own
    tick finds out of reach. -/
structure Adds (moment : Moment) (updates : List LinkUpdate) : Prop where
  single : updates.length ≤ 1
  sent : updates.filterMap LinkUpdate.names = moment.reaction.trace.filterMap Observation.planned
  released : ∀ sender, .release sender ∈ updates → moment.Releases sender

/-- A run told moment by moment: each moment appends its own updates to those before, and after each
    of them the run so far is one of atomic rounds. -/
inductive Chronicle (net : FogNetwork) (position : Device → Coord) :
    List Moment → List LinkUpdate → Simulation → Prop where
  | start : Chronicle net position [] [] (Simulation.start net position)
  | next {moments : List Moment} {updates more : List LinkUpdate} {before after : Simulation}
      {moment : Moment} (told : Chronicle net position moments updates before)
      (handles : before.Handles net moment after) (adds : Adds moment more)
      (atomic : Atomic (moments ++ [moment]) (updates ++ more) after) :
      Chronicle net position (moments ++ [moment]) (updates ++ more) after

end FogNetModel

namespace FogNetProof.Runs

open FogNetModel Kernel Matching FogNetProof.Links FogNetProof.Names FogNetProof.Plans FogNetProof.Rounds

theorem undelivered_congr {plan : Plan} {before after : Multiset Message}
    (waiting : ∀ device actions, .action device actions ∈ after ↔ .action device actions ∈ before) :
    undelivered plan after = undelivered plan before := by
  apply List.filter_congr
  intro pair _
  rw [decide_eq_decide]
  exact waiting _ _

theorem undelivered_clean (plan : Plan) (pending : Multiset Message) :
    (((undelivered plan pending).map gatePair).map Prod.fst).Nodup ∧
      (((undelivered plan pending).map gatePair).map Prod.snd).Nodup := by
  obtain ⟨senders, receivers⟩ := gatePairs_distinct plan
  have part : ((undelivered plan pending).map gatePair).Sublist (plan.pairs.map gatePair) :=
    List.filter_sublist.map _
  exact ⟨senders.sublist (part.map _), receivers.sublist (part.map _)⟩

theorem linearized_keep {plan : Plan} {updates : List LinkUpdate} {before after : Config}
    (known : Linearized plan updates before) (gates : after.state.gates = before.state.gates)
    (waiting : ∀ device actions, .action device actions ∈ after.pending ↔
      .action device actions ∈ before.pending)
    (trace : after.trace.filterMap Observation.planned = before.trace.filterMap Observation.planned) :
    Linearized plan updates after where
  agree := gates ▸ known.agree
  text := fun device actions flying => known.text device actions ((waiting device actions).mp flying)
  links := by
    obtain ⟨agree, _, links, _⟩ := known
    rw [undelivered_congr waiting]
    obtain ⟨⟨position, participant, listener, afterGates⟩, pending, afterTrace⟩ := after
    cases gates
    exact links
  sent := known.sent.trans trace.symm

/-- Before a round starts nothing waits, so its plan takes effect at once. -/
theorem linearized_planned {net : FogNetwork} {plan : Plan} {updates : List LinkUpdate} {config : Config}
    (known : Linearized plan updates config) (settled : Settled config) {next : Plan}
    (carried : net.Carries next) {listener : SignalListener} {seen : List Observation}
    (planned : seen.filterMap Observation.planned = [next.names]) :
    Linearized next (updates ++ [.adopt next])
      { state := { config.state with listener := listener }
        pending := config.pending + ↑(net.actionGates.map fun device =>
          Message.action device (encode next.names))
        trace := config.trace ++ seen } where
  agree := known.agree
  text := by
    intro device actions flying
    rcases Multiset.mem_add.mp flying with old | new
    · exact absurd old (settled device actions)
    · simp only [Multiset.mem_coe, List.mem_map, Message.action.injEq] at new
      obtain ⟨_, _, _, isText⟩ := new
      exact isText.symm
  links := by
    have nothing : undelivered plan config.pending = [] :=
      List.filter_eq_nil_iff.mpr fun pair _ => by simpa using settled _ _
    have everything : undelivered next (config.pending + ↑(net.actionGates.map fun device =>
        Message.action device (encode next.names))) = next.pairs := by
      refine List.filter_eq_self.mpr fun pair member => decide_eq_true ?_
      apply Multiset.mem_add.mpr
      right
      rw [Multiset.mem_coe, List.mem_map]
      exact ⟨pair.1, mem_actionGates.mpr (carried pair member).1, rfl⟩
    have before := known.links
    rw [nothing] at before
    rw [everything, List.map_append, List.map_singleton, PartialMatching.replay_snoc, ← before]
    rfl
  sent := by
    rw [List.filterMap_append, List.filterMap_append, known.sent, planned]
    rfl

section Delivery

variable {plan : Plan} {pending : Multiset Message} {device : Device}

/-- A delivery to one device leaves the messages for the others in flight. -/
theorem waits_erase {other : Device} (different : other ≠ device) :
    Message.action other (encode plan.names) ∈ pending.erase (.action device (encode plan.names)) ↔
      .action other (encode plan.names) ∈ pending :=
  Multiset.mem_erase_of_ne (by simpa using different)

theorem undelivered_none (found : plan.receiverOf device = none) :
    undelivered plan (pending.erase (.action device (encode plan.names))) = undelivered plan pending := by
  apply List.filter_congr
  intro pair planned
  apply decide_eq_decide.mpr
  apply waits_erase
  rintro rfl
  rw [receiverOf_eq_some.mpr planned] at found
  cases found

theorem mem_undelivered {receiver : Device} (own : (device, receiver) ∈ plan.pairs)
    (flying : .action device (encode plan.names) ∈ pending) {pair : Device × Device} :
    pair ∈ undelivered plan pending ↔ pair = (device, receiver) ∨
      pair ∈ undelivered plan (pending.erase (.action device (encode plan.names))) := by
  simp only [undelivered, List.mem_filter, decide_eq_true_eq]
  by_cases isDevice : pair.1 = device
  · constructor
    · rintro ⟨planned, _⟩
      exact Or.inl (plan.matching.edge_unique planned own (Or.inl isDevice.symm) (Or.inl rfl))
    · rintro (rfl | ⟨planned, waits⟩)
      · exact ⟨own, flying⟩
      · exact ⟨planned, Multiset.mem_of_mem_erase waits⟩
  · have notOwn : pair ≠ (device, receiver) := fun same => isDevice (congrArg Prod.fst same)
    rw [waits_erase isDevice, or_iff_right notOwn]

/-- A delivery carries out one of the pending pairs, so the links to come stay the same. -/
theorem linearized_rewired {net : FogNetwork} {updates : List LinkUpdate} {config : Config}
    (carried : net.Carries plan) (known : Linearized plan updates config)
    {actions : List Char} {gates : Gates} (flying : .action device actions ∈ config.pending)
    (handled : LocalCoordinator.handleAction net device actions config.state.gates = .ok gates) :
    Linearized plan updates { config with
      state := { config.state with gates := gates }
      pending := config.pending.erase (.action device actions) } := by
  cases known.text device actions flying
  obtain ⟨result, resultAgree, reached, same⟩ := handleAction_plan carried known.agree device
  cases Except.ok.inj (reached.symm.trans handled)
  refine ⟨resultAgree, fun other text later => known.text other text (Multiset.mem_of_mem_erase later),
    ?_, known.sent⟩
  rw [← known.links, same, assigned]
  cases found : plan.receiverOf device with
  | none => rw [undelivered_none found]
  | some receiver =>
    have own := receiverOf_eq_some.mp found
    obtain ⟨senders, receivers⟩ := undelivered_clean plan config.pending
    obtain ⟨restSenders, restReceivers⟩ :=
      undelivered_clean plan (config.pending.erase (.action device (encode plan.names)))
    apply PartialMatching.assignAll_assign senders receivers _ restSenders restReceivers
    intro pair
    simp only [List.mem_map, mem_undelivered own flying]
    constructor
    · rintro ⟨devices, rfl | waits, rfl⟩
      · exact Or.inl rfl
      · exact Or.inr ⟨devices, waits, rfl⟩
    · rintro (rfl | ⟨devices, waits, rfl⟩)
      · exact ⟨(device, receiver), Or.inl rfl, rfl⟩
      · exact ⟨devices, Or.inr waits, rfl⟩

end Delivery

/-- A sender that gives its link up does so for good, unless its next pair is already under way. -/
theorem linearized_gaveUp {plan : Plan} {updates : List LinkUpdate} {config : Config}
    (known : Linearized plan updates config) (after : Config) {device : Device}
    (gates : after.state.gates = config.state.gates.disconnect (.sourceOut device))
    (pending : after.pending = config.pending)
    (trace : after.trace.filterMap Observation.planned = config.trace.filterMap Observation.planned) :
    Linearized plan updates after ∨ Linearized plan (updates ++ [.release device]) after := by
  have agree : after.state.gates.Agree := gates ▸ known.agree.disconnect _
  have released : agree.matching = known.agree.matching.release (.sourceOut device) := by
    rw [← known.agree.disconnect_matching]
    obtain ⟨⟨position, participant, listener, afterGates⟩, afterPending, afterTrace⟩ := after
    cases gates
    rfl
  have text : ∀ other actions, .action other actions ∈ after.pending → actions = encode plan.names :=
    pending ▸ known.text
  obtain ⟨senders, receivers⟩ := undelivered_clean plan config.pending
  by_cases planned : OutGate.sourceOut device ∈
      ((undelivered plan config.pending).map gatePair).map Prod.fst
  · refine Or.inl ⟨agree, text, ?_, known.sent.trans trace.symm⟩
    rw [pending, released, PartialMatching.assignAll_release_of_mem senders receivers _ planned, known.links]
  · refine Or.inr ⟨agree, text, ?_, ?_⟩
    · rw [pending, released, PartialMatching.assignAll_release senders receivers _ planned, known.links,
        List.map_append, List.map_singleton, PartialMatching.replay_snoc]
      rfl
    · rw [List.filterMap_append, trace, ← known.sent]
      exact List.append_nil _

/-- Every step of the network refines one of the atomic rounds, or none. -/
theorem linearized_effect {net : FogNetwork} {plan : Plan} {updates : List LinkUpdate}
    {before after : Config} {label : Label} (wellformed : Wellformed net before)
    (carried : net.Carries plan) (known : Linearized plan updates before)
    (settled : (∃ choice, label = .timer .coordinatorTick choice) → Settled before)
    (effect : Effect net before label after) :
    ∃ next more, net.Carries next ∧ Linearized next (updates ++ more) after ∧ more.length ≤ 1 ∧
      ∀ update ∈ more, Causes before label update := by
  have keep : Linearized plan updates after → ∃ next more, net.Carries next ∧
      Linearized next (updates ++ more) after ∧ more.length ≤ 1 ∧
        ∀ update ∈ more, Causes before label update :=
    fun same => ⟨plan, [], carried, by simpa using same, by simp, by simp⟩
  cases effect with
  | quiet => exact keep known
  | attempted => exact keep (linearized_keep known rfl (by simp) (by simp [Observation.planned]))
  | @gaveUp device peer choice held mobile linked far =>
    rcases linearized_gaveUp known { before with
        state := { before.state.emit .asent with
          gates := before.state.gates.disconnect (.sourceOut device) }
        trace := before.trace ++ [.asent device] } rfl rfl (by simp [Observation.planned])
      with same | released
    · exact keep same
    · refine ⟨plan, [.release device], carried, released, le_rfl, fun update member => ?_⟩
      obtain rfl := List.mem_singleton.mp member
      exact ⟨choice, peer, rfl, linked, far⟩
  | sent => exact keep (linearized_keep known rfl (by simp) (by simp [Observation.planned]))
  | reported => exact keep (linearized_keep known rfl (by simp) rfl)
  | unsolved => exact keep (linearized_keep known rfl (by simp) (by simp [Observation.planned]))
  | @planned choice selection full some sound selected =>
    obtain ⟨next, names, text, nextCarried⟩ :=
      selected_plan wellformed.registered before.state.position sound selected
    refine ⟨next, [.adopt next], nextCarried, ?_, le_rfl, fun update member => ?_⟩
    · rw [text, names]
      exact linearized_planned known (settled ⟨choice, rfl⟩) nextCarried rfl
    · obtain rfl := List.mem_singleton.mp member
      exact ⟨choice, rfl⟩
  | stored => exact keep (linearized_keep known rfl (by simp [Multiset.mem_erase_of_ne]) rfl)
  | rewired flying handled => exact keep (linearized_rewired carried known flying handled)
  | received =>
    exact keep (linearized_keep known rfl (by simp [Multiset.mem_erase_of_ne]) (by simp [Observation.planned]))
  | forwarded =>
    exact keep (linearized_keep known rfl (by simp [Multiset.mem_erase_of_ne]) (by simp [Observation.planned]))
  | moved => exact keep (linearized_keep known rfl (by simp) rfl)

section Timed

variable {net : FogNetwork} {position : Device → Coord} {moments : List Moment} {sim : Simulation}

/-- With long periods every action message arrives before the next round. -/
theorem action_before_round (run : TimedRun net position moments sim) (long : LongPeriods moments)
    {due : Nat} {device : Device} {actions : List Char}
    (flying : (due, .message (.action device actions)) ∈ sim.events) :
    due < (intervals .coordinatorTick moments).sum := by
  induction run generalizing due device actions with
  | refl => exact (start_timers net position _ flying).elim
  | @snoc moments before after moment run handles ih =>
    have pending := pending_tick .coordinatorTick trivial run
    obtain ⟨rest, events, rfl⟩ := handles.became
    have accounted := events ▸ run_accounted run
    have longBefore : LongPeriods moments := fun earlier member =>
      long earlier (List.mem_append_left _ member)
    rw [scheduleAll_eq] at flying
    rw [intervals_snoc, List.sum_append]
    rcases List.mem_append.mp ((enter_perm _ _).subset flying) with old | new
    · exact Nat.lt_of_lt_of_le (ih longBefore (events ▸ List.mem_cons_of_mem _ old)) (Nat.le_add_right _ _)
    · obtain ⟨⟨delay, event⟩, scheduled, isNew⟩ := List.mem_map.mp new
      obtain ⟨rfl, rfl⟩ := Prod.mk.inj isNew
      obtain ⟨rfl, isRound⟩ := action_scheduled handles.handled scheduled
      rw [events, List.filter_cons, if_pos (isTick_iff.mpr isRound)] at pending
      have time : moment.time = (intervals .coordinatorTick moments).sum :=
        congrArg Prod.fst (List.cons.inj pending).1
      have period := long moment (List.mem_append_right _ (List.mem_singleton.mpr rfl)) isRound
      rw [if_pos isRound, List.sum_singleton]
      omega

theorem round_settled {before after : Simulation} {moment : Moment}
    (run : TimedRun net position moments before) (long : LongPeriods moments)
    (handles : before.Handles net moment after) (isRound : moment.event = .coordinatorTick) :
    Settled before.config := by
  intro device actions pending
  obtain ⟨event, waiting, isMessage⟩ := List.mem_filterMap.mp (Multiset.mem_coe.mp pending)
  obtain ⟨⟨due, other⟩, member, rfl⟩ := List.mem_map.mp waiting
  obtain rfl := toMessage_eq_some.mp isMessage
  have tick := pending_tick .coordinatorTick trivial run
  obtain ⟨rest, events, _⟩ := handles.became
  have accounted := events ▸ run_accounted run
  have earlier := action_before_round run long member
  rw [events, List.filter_cons, if_pos (isTick_iff.mpr isRound)] at tick
  have time : moment.entry.1 = _ := congrArg Prod.fst (List.cons.inj tick).1
  have first := accounted.next_first _ (events ▸ member)
  omega

/-- With long periods a round finds every action message of the rounds before it handled. -/
theorem rounds_find_settled (run : TimedRun net position moments sim) (long : LongPeriods moments)
    {earlier later : List Moment} {round : Moment} (here : moments = earlier ++ round :: later)
    (isRound : round.event = .coordinatorTick) :
    ∀ due device actions, (due, .message (.action device actions)) ∈ net.asked earlier →
      ∃ handled ∈ earlier, handled.entry = (due, .message (.action device actions)) := by
  obtain ⟨before, after, first, handles, _⟩ := Labelled.split (here ▸ run)
  have longBefore : LongPeriods earlier := fun moment member =>
    long moment (here ▸ List.mem_append_left _ member)
  intro due device actions asked
  rcases List.mem_append.mp ((run_accounted first).conserved.mem_iff.mpr asked) with done | waiting
  · exact List.mem_map.mp done
  · refine absurd ?_ (round_settled first longBefore handles isRound device actions)
    exact Multiset.mem_coe.mpr (List.mem_filterMap.mpr ⟨_, List.mem_map_of_mem waiting, rfl⟩)

theorem rounds_find_settled_opening :
    ∃ moments sim earlier round later, TimedRun (.ofSizes 1 1 1) (fun _ => ⟨0, 0⟩) moments sim ∧
      moments = earlier ++ round :: later ∧ round.time = 6 * channelDelay ∧
      ∀ due device actions, (due, .message (.action device actions)) ∈ (FogNetwork.ofSizes 1 1 1).asked earlier →
        ∃ handled ∈ earlier, handled.entry = (due, .message (.action device actions)) := by
  have shown : opened (fun run => decide ((∃ round ∈ run.1,
      round.event = .coordinatorTick ∧ round.time = 6 * channelDelay) ∧ ∀ moment ∈ run.1,
        moment.event = .coordinatorTick → channelDelay < moment.choice.interval)) = some true := by
    decide +kernel
  obtain ⟨moments, sim, run, _, _, checked⟩ := opening_run shown
  obtain ⟨⟨round, member, isRound, time⟩, long⟩ := of_decide_eq_true checked
  obtain ⟨earlier, later, whole⟩ := List.append_of_mem member
  exact ⟨moments, sim, earlier, round, later, run, whole, time, rounds_find_settled run long whole isRound⟩

theorem linearized_start (position : Device → Coord) :
    Linearized ⟨[], by simp, by simp, List.nodup_nil⟩ [] (Config.initial position) where
  agree := Wires.unconnected_agree
  text := by simp [Config.initial]
  links := by
    ext output input
    simp [Config.initial, Wires.unconnected, undelivered, PartialMatching.assignAll,
      PartialMatching.replay, PartialMatching.empty]
  sent := rfl

theorem clean_toUpdate (update : LinkUpdate) : update.toUpdate.Clean := by
  cases update with
  | adopt plan => exact gatePairs_distinct plan
  | release sender => exact trivial

theorem spares_toUpdate {update : LinkUpdate} {sender receiver : Device} :
    update.toUpdate.Spares (.sourceOut sender) (.componentIn receiver) ↔ update.Spares sender receiver := by
  cases update with
  | adopt plan => simp [LinkUpdate.toUpdate, Update.Spares, LinkUpdate.Spares, gatePair]
  | release other => simp [LinkUpdate.toUpdate, Update.Spares, LinkUpdate.Spares]

theorem adopt_toUpdate {update : LinkUpdate} {pairs : List (OutGate × InGate)}
    (same : update.toUpdate = .adopt pairs) :
    ∃ plan, update = .adopt plan ∧ pairs = plan.pairs.map gatePair := by
  cases update with
  | adopt plan => exact ⟨plan, rfl, (Update.adopt.inj same).symm⟩
  | release sender => cases same

theorem mem_gatePairs {plan : Plan} {sender receiver : Device} :
    (OutGate.sourceOut sender, InGate.componentIn receiver) ∈ plan.pairs.map gatePair ↔
      (sender, receiver) ∈ plan.pairs := by
  simp [gatePair]

theorem mem_replay_toUpdate {updates : List LinkUpdate} {sender receiver : Device} :
    (OutGate.sourceOut sender, InGate.componentIn receiver) ∈
        (PartialMatching.replay (updates.map LinkUpdate.toUpdate)).pairs ↔
      ∃ earlier plan later, updates = earlier ++ .adopt plan :: later ∧
        (sender, receiver) ∈ plan.pairs ∧ ∀ update ∈ later, update.Spares sender receiver := by
  have clean : ∀ update ∈ updates.map LinkUpdate.toUpdate, update.Clean := by
    intro update member
    obtain ⟨own, _, rfl⟩ := List.mem_map.mp member
    exact clean_toUpdate own
  rw [PartialMatching.mem_replay clean]
  constructor
  · rintro ⟨earlier, pairs, later, whole, planned, spared⟩
    obtain ⟨front, rest, rfl, _, follow⟩ := List.map_eq_append_iff.mp whole
    obtain ⟨update, back, rfl, isAdopt, rfl⟩ := List.map_eq_cons_iff.mp follow
    obtain ⟨plan, rfl, rfl⟩ := adopt_toUpdate isAdopt
    exact ⟨front, plan, back, rfl, mem_gatePairs.mp planned, fun update member =>
      spares_toUpdate.mp (spared _ (List.mem_map_of_mem member))⟩
  · rintro ⟨earlier, plan, later, rfl, planned, spared⟩
    refine ⟨earlier.map LinkUpdate.toUpdate, plan.pairs.map gatePair, later.map LinkUpdate.toUpdate,
      by simp [LinkUpdate.toUpdate], mem_gatePairs.mpr planned, fun update member => ?_⟩
    obtain ⟨own, isLater, rfl⟩ := List.mem_map.mp member
    exact spares_toUpdate.mpr (spared own isLater)

/-- Once nothing waits any more, the links of a linearized run are those of its updates. -/
theorem linearized_atomic {plan : Plan} {updates : List LinkUpdate}
    (known : Linearized plan updates sim.config)
    (released : ∀ sender, .release sender ∈ updates → ∃ moment ∈ moments, moment.Releases sender) :
    Atomic moments updates sim := by
  refine ⟨known.sent, released, fun settled sender receiver => ?_⟩
  have nothing : undelivered plan sim.config.pending = [] :=
    List.filter_eq_nil_iff.mpr fun pair _ => by simpa using settled _ _
  have links := known.links
  rw [nothing] at links
  have same : known.agree.matching = PartialMatching.replay (updates.map LinkUpdate.toUpdate) := links
  rw [← mem_replay_toUpdate, ← same]
  rfl

theorem chronicle_atomic {updates : List LinkUpdate} (told : Chronicle net position moments updates sim) :
    Atomic moments updates sim := by
  cases told with
  | start => exact linearized_atomic (start_config net position ▸ linearized_start position) (by simp)
  | next _ _ _ atomic => exact atomic

/-- One event of a run with long periods: the updates grow by those that its moment adds. -/
theorem linearized_handles {plan : Plan} {updates : List LinkUpdate} {before after : Simulation}
    {moment : Moment} (run : TimedRun net position moments before) (long : LongPeriods moments)
    (carried : net.Carries plan) (known : Linearized plan updates before.config)
    (handles : before.Handles net moment after) :
    ∃ latest more, net.Carries latest ∧ Linearized latest (updates ++ more) after.config ∧
      Adds moment more := by
  obtain ⟨move, stepped⟩ := handles_effects run handles
  have gates : moment.met.gates = before.state.gates := by
    rw [handles.met]
  have moved : Linearized plan updates { before.config with state := moment.met } :=
    linearized_keep known gates (by simp) rfl
  have settled : (∃ choice, moment.event.label moment.choice = .timer .coordinatorTick choice) →
      Settled { before.config with state := moment.met } := by
    intro isRound
    obtain ⟨_, isTick⟩ := isRound
    exact round_settled run long handles (label_timer isTick).1
  obtain ⟨latest, more, latestCarried, linearized, single, caused⟩ := linearized_effect
    (met_wellformed run handles) carried moved settled stepped
  refine ⟨latest, more, latestCarried, linearized, single, ?_, fun sender member => ?_⟩
  · have plans := linearized.sent
    obtain ⟨rest, events, rfl⟩ := handles.became
    rw [List.filterMap_append, known.sent] at plans
    exact List.append_cancel_left (plans.trans List.filterMap_append)
  · obtain ⟨choice, receiver, isTick, linked, far⟩ := caused _ member
    exact ⟨(label_timer isTick).1, receiver, linked, far⟩

theorem run_linearized (run : TimedRun net position moments sim) (long : LongPeriods moments) :
    ∃ plan updates, net.Carries plan ∧ Linearized plan updates sim.config ∧
      Chronicle net position moments updates sim := by
  induction run with
  | refl =>
    rw [start_config]
    exact ⟨_, [], by simp [FogNetwork.Carries], linearized_start position, .start⟩
  | @snoc moments before after moment run handles ih =>
    have longBefore : LongPeriods moments := fun earlier member =>
      long earlier (List.mem_append_left _ member)
    obtain ⟨plan, updates, carried, known, told⟩ := ih longBefore
    obtain ⟨latest, more, latestCarried, linearized, adds⟩ :=
      linearized_handles run longBefore carried known handles
    refine ⟨latest, updates ++ more, latestCarried, linearized, told.next handles adds ?_⟩
    apply linearized_atomic linearized
    intro sender member
    rcases List.mem_append.mp member with old | new
    · obtain ⟨earlier, isEarlier, facts⟩ := (chronicle_atomic told).released sender old
      exact ⟨earlier, List.mem_append_left _ isEarlier, facts⟩
    · exact ⟨moment, List.mem_append_right _ (List.mem_singleton.mpr rfl), adds.released sender new⟩

/-- With periods longer than the channels' delay a run is one of atomic rounds: although the hosts
    rewire their gates one after the other, every round takes effect as a whole. -/
theorem rounds_atomic (run : TimedRun net position moments sim) (long : LongPeriods moments) :
    ∃ updates, Chronicle net position moments updates sim ∧ Atomic moments updates sim := by
  obtain ⟨plan, updates, _, _, told⟩ := run_linearized run long
  exact ⟨updates, told, chronicle_atomic told⟩

theorem rounds_atomic_opening :
    ∃ moments sim updates, TimedRun (.ofSizes 1 1 1) (fun _ => ⟨0, 0⟩) moments sim ∧
      (⟨.mobileHost, 0⟩, ⟨.fogHost, 0⟩) ∈ linkSet sim.state.gates ∧
      Chronicle (.ofSizes 1 1 1) (fun _ => ⟨0, 0⟩) moments updates sim ∧ Atomic moments updates sim := by
  have shown : opened (fun run => decide (
      run.2.state.gates.nextGate (.sourceOut ⟨.mobileHost, 0⟩) = some (.componentIn ⟨.fogHost, 0⟩) ∧
      ∀ moment ∈ run.1, moment.event = .coordinatorTick → channelDelay < moment.choice.interval)) =
        some true := by decide +kernel
  obtain ⟨moments, sim, run, _, _, checked⟩ := opening_run shown
  obtain ⟨linked, long⟩ := of_decide_eq_true checked
  obtain ⟨updates, atomic⟩ := rounds_atomic run long
  exact ⟨moments, sim, updates, run, linked, atomic⟩

end Timed

end FogNetProof.Runs
