import FogNet.Coordinator.FirstFit
import FogNet.System.LinkInvariant

namespace FogNetModel

open Kernel

/-- The two hosts of a pair stand at different indices of the two host arrays. -/
def Indexed (net : FogNetwork) (participant : List SavedMsg) (edge : List Char × List Char) : Prop :=
  ∃ a b : Nat, a ≠ b ∧ (participant.map SavedMsg.name)[a]? = some edge.1 ∧
    ((CentralizedCoordinator.bDevices net).map Device.getFullName)[b]? = some edge.2

def Settled (config : Config) : Prop := ∀ device actions, .action device actions ∉ config.pending

def noRound (_ : Config) (label : Label) : Prop := ∀ choice, label ≠ .timer .coordinatorTick choice

/-- The coordinates that a round uses for the two hosts differ by more than 1000 on some axis. -/
def FarApart (state : State) (sender receiver : Device) : Prop :=
  ∃ saved ∈ state.participant, saved.ctx.device = sender.getFullName ∧
    (1000 < |Numeric.truncate saved.ctx.x - Numeric.truncate (state.position receiver).x| ∨
      1000 < |Numeric.truncate saved.ctx.y - Numeric.truncate (state.position receiver).y|)

/-- The plan that a step from `before` to `after` has sent holds the pair. -/
def NewlyPlanned (before after : Config) (sender receiver : Device) : Prop :=
  ∃ names, .planSent names ∈ after.trace.drop before.trace.length ∧
    (sender.getFullName, receiver.getFullName) ∈ names

/-- While a round's messages are being handled: a link is planned, or it stood before and every
    planned pair that touches it still waits for its message. -/
structure Settling (plan : Plan) (before config : Config) : Prop where
  agree : config.state.gates.Agree
  text : ∀ device actions, .action device actions ∈ config.pending → actions = encode plan.names
  links : ∀ sender receiver, (sender, receiver) ∈ linkSet config.state.gates →
    (sender, receiver) ∈ plan.pairs ∨ ((sender, receiver) ∈ linkSet before.state.gates ∧
      ∀ pair ∈ plan.pairs, .action pair.1 (encode plan.names) ∈ config.pending ∨
        (sender ≠ pair.1 ∧ receiver ≠ pair.2))

end FogNetModel

namespace FogNetProof.Runs

open FogNetModel FogNetModel.CentralizedCoordinator Kernel Matching FogNetProof.Links FogNetProof.Names
  FogNetProof.Plans FogNetProof.Rounds

theorem indexed_handleSync {net : FogNetwork} {participant : List SavedMsg}
    {edge : List Char × List Char} (indexed : Indexed net participant edge) (ctx : ContextSync) :
    Indexed net (handleSync participant ctx) edge := by
  obtain ⟨a, b, different, aName, bName⟩ := indexed
  refine ⟨a, b, different, ?_, bName⟩
  have kept : participant.map SavedMsg.name <+: (handleSync participant ctx).map SavedMsg.name :=
    setNamed_names_prefix participant _
  obtain ⟨rest, longer⟩ := kept
  obtain ⟨bound, _⟩ := List.getElem?_eq_some_iff.mp aName
  rw [← longer, List.getElem?_append_left bound]
  exact aName

theorem selected_indexed {net : FogNetwork} {state : State}
    (registered : Registered net state.participant) {solutions : List (Nat × Nat)}
    (sound : (state.problem net).Sound solutions) {selection : Selection}
    (selected : select (state.problem net) solutions = .ok selection) :
    ∀ edge ∈ selection.plan, Indexed net state.participant edge := by
  have inRange := sound_inRange (problem_aligned net state.participant state.position) sound
  intro edge member
  rw [(selected_eq inRange selected).1] at member
  obtain ⟨pair, offered, rfl⟩ := List.mem_map.mp ((greedy_sublist _ _).subset member)
  obtain ⟨aBound, bBound⟩ := inRange pair offered
  refine ⟨pair.1, pair.2, (satisfies_eq_true.mp (sound pair offered)).2.2, ?_, ?_⟩
  · have hosts : (state.problem net).aHosts = state.participant.map SavedMsg.name := aHosts_eq registered
    rw [← hosts]
    exact getElem?_of_bound aBound
  · exact getElem?_of_bound bBound

theorem planned_indexed {net : FogNetwork} {config : Config} (reachable : Reachable net config) :
    ∀ names, .planSent names ∈ config.trace →
      ∀ edge ∈ names, Indexed net config.state.participant edge := by
  obtain ⟨position, run⟩ := reachable
  have both : Wellformed net config ∧ ∀ names, .planSent names ∈ config.trace →
      ∀ edge ∈ names, Indexed net config.state.participant edge := by
    refine run_invariant (fun config => Wellformed net config ∧
      ∀ names, .planSent names ∈ config.trace →
        ∀ edge ∈ names, Indexed net config.state.participant edge) ?_ run
      ⟨wellformed_initial net position, by simp [Config.initial]⟩
    rintro before label after ⟨known, indexed⟩ _ effect
    refine ⟨wellformed_effect known effect, ?_⟩
    cases effect with
    | planned full some sound selected =>
      intro names sent edge member
      rcases List.mem_append.mp sent with old | new
      · exact indexed names old edge member
      · simp only [List.mem_cons, List.not_mem_nil, or_false, reduceCtorEq, false_or,
          Observation.planSent.injEq] at new
        exact selected_indexed known.registered sound selected edge (new ▸ member)
    | stored inFlight =>
      intro names sent edge member
      exact indexed_handleSync (indexed names sent edge member) _
    | quiet => exact indexed
    | reported => exact indexed
    | rewired => exact indexed
    | moved => exact indexed
    | attempted => simpa using indexed
    | gaveUp => simpa using indexed
    | sent => simpa using indexed
    | unsolved => simpa using indexed
    | received => simpa using indexed
    | forwarded => simpa using indexed
  exact both.2

theorem plan_touches {plan : Plan} {device : Device}
    (touches : device.getFullName ∈ endpoints plan.names) :
    ∃ pair ∈ plan.pairs, device = pair.1 ∨ device = pair.2 := by
  rw [Plan.names, endpoints_fullNames, List.mem_map_of_injective getFullName_injective] at touches
  exact mem_endpoints.mp touches

/-- A round that has the full solution list leaves a plan behind that touches every pair admitted. -/
theorem round_starts_settling {net : FogNetwork} {before middle : Config} {choice : Choice}
    (known : Wellformed net before) (settled : Settled before)
    (full : before.state.participant.length = net.numHosts)
    (enumerated : (before.state.problem net).Enumerated choice.solutions)
    (effect : Effect net before (.timer .coordinatorTick choice) middle) :
    ∃ plan : Plan, net.Carries plan ∧ Settling plan before middle ∧
      (∀ sender receiver, (sender, receiver) ∈ plan.pairs → NewlyPlanned before middle sender receiver) ∧
      ∀ a b, (before.state.problem net).satisfies a b = true →
        (before.state.problem net).aName a ∈ endpoints plan.names ∨
          (before.state.problem net).bName b ∈ endpoints plan.names := by
  cases effect with
  | quiet unready => exact absurd full (unready choice rfl)
  | unsolved _ none =>
    refine ⟨⟨[], by simp, by simp, List.nodup_nil⟩, by simp [FogNetwork.Carries],
      ⟨known.agree, fun device actions inFlight => absurd inFlight (settled device actions),
        fun sender receiver linked => Or.inr ⟨linked, by simp⟩⟩, by simp, fun a b satisfied => ?_⟩
    rw [← enumerated, none] at satisfied
    simp at satisfied
  | @planned _ selection _ some sound selected =>
    obtain ⟨plan, names, text, carried⟩ :=
      selected_plan known.registered before.state.position sound selected
    have inRange :=
      sound_inRange (problem_aligned net before.state.participant before.state.position) sound
    obtain ⟨chosen, _⟩ := selected_eq inRange selected
    refine ⟨plan, carried, ⟨known.agree, fun device actions inFlight => ?_, fun sender receiver linked => ?_⟩,
      fun sender receiver planned => ?_, fun a b satisfied => ?_⟩
    · rcases Multiset.mem_add.mp inFlight with old | new
      · exact absurd old (settled device actions)
      · simp only [Multiset.mem_coe, List.mem_map, Message.action.injEq] at new
        obtain ⟨_, _, _, isText⟩ := new
        rw [← isText, text]
    · refine Or.inr ⟨linked, fun pair planned => Or.inl (Multiset.mem_add.mpr (Or.inr ?_))⟩
      rw [← text, Multiset.mem_coe, List.mem_map]
      exact ⟨pair.1, mem_actionGates.mpr (carried pair planned).1, rfl⟩
    · exact ⟨selection.plan, by simp, names ▸ mem_names.mpr planned⟩
    · have offered := (enumerated a b).mpr satisfied
      rw [← names, chosen]
      simpa [Problem.names, edgeOf, State.problem] using
        greedy_maximal [] (List.mem_map_of_mem (f := (before.state.problem net).names) offered)

theorem linkSet_disconnect {gates : Gates} {output : OutGate} {pair : Device × Device}
    (linked : pair ∈ linkSet (gates.disconnect output)) : pair ∈ linkSet gates := by
  simp only [linkSet, Set.mem_ofPred_eq, Wires.disconnect_nextGate] at linked
  split at linked
  · cases linked
  · exact linked

theorem settling_keep {plan : Plan} {before config after : Config} (settling : Settling plan before config)
    (agree : after.state.gates.Agree)
    (waiting : ∀ device actions, .action device actions ∈ after.pending ↔
      .action device actions ∈ config.pending)
    (kept : ∀ pair, pair ∈ linkSet after.state.gates → pair ∈ linkSet config.state.gates) :
    Settling plan before after where
  agree := agree
  text := fun device actions inFlight => settling.text device actions ((waiting device actions).mp inFlight)
  links := by
    intro sender receiver linked
    rcases settling.links sender receiver (kept _ linked) with stays | ⟨stood, waits⟩
    · exact Or.inl stays
    · exact Or.inr ⟨stood, fun pair planned => (waits pair planned).imp (waiting _ _).mpr id⟩

/-- The host that handles its message connects its own pair, which frees that pair's two hosts of
    every other link. -/
theorem settling_rewired {net : FogNetwork} {plan : Plan} (carried : net.Carries plan)
    {before config : Config} (settling : Settling plan before config) {device : Device}
    {actions : List Char} {gates : Gates} (inFlight : .action device actions ∈ config.pending)
    (handled : LocalCoordinator.handleAction net device actions config.state.gates = .ok gates) :
    Settling plan before { config with
      state := { config.state with gates := gates }
      pending := config.pending.erase (.action device actions) } := by
  cases settling.text device actions inFlight
  obtain ⟨result, resultAgree, reached, same⟩ := handleAction_plan carried settling.agree device
  cases Except.ok.inj (reached.symm.trans handled)
  refine ⟨resultAgree, fun other text later => settling.text other text (Multiset.mem_of_mem_erase later),
    fun sender receiver linked => ?_⟩
  have connected :
      (OutGate.sourceOut sender, InGate.componentIn receiver) ∈ resultAgree.matching.pairs := linked
  rw [same, assigned] at connected
  -- a pair of another sender still waits after this message is gone
  have others : ∀ pair ∈ plan.pairs, pair.1 ≠ device →
      .action pair.1 (encode plan.names) ∈ config.pending →
      .action pair.1 (encode plan.names) ∈
        config.pending.erase (.action device (encode plan.names)) := by
    intro pair _ different waits
    exact (Multiset.mem_erase_of_ne (by simpa using different)).mpr waits
  cases found : plan.receiverOf device with
  | none =>
    rw [found] at connected
    rcases settling.links sender receiver connected with stays | ⟨stood, waits⟩
    · exact Or.inl stays
    · refine Or.inr ⟨stood, fun pair planned => (waits pair planned).imp (others pair planned ?_) id⟩
      intro isDevice
      rw [receiverOf_eq_some.mpr (show (device, pair.2) ∈ plan.pairs from isDevice ▸ planned)] at found
      cases found
  | some own =>
    have ownPlanned := receiverOf_eq_some.mp found
    rw [found] at connected
    rcases PartialMatching.mem_assign.mp connected with ⟨isSender, isReceiver⟩ | ⟨old, apart, clear⟩
    · cases isSender
      cases isReceiver
      exact Or.inl ownPlanned
    · rcases settling.links sender receiver old with stays | ⟨stood, waits⟩
      · exact Or.inl stays
      · refine Or.inr ⟨stood, fun pair planned => ?_⟩
        by_cases isDevice : pair.1 = device
        · have samePair := plan.matching.edge_unique planned ownPlanned
            (Or.inl isDevice.symm) (Or.inl rfl)
          subst samePair
          exact Or.inr ⟨fun equal => apart (congrArg _ equal), fun equal => clear (congrArg _ equal)⟩
        · exact (waits pair planned).imp (others pair planned isDevice) id

theorem settling_effect {net : FogNetwork} {plan : Plan} (carried : net.Carries plan)
    {before config after : Config} {label : Label} (settling : Settling plan before config)
    (permitted : noRound config label) (effect : Effect net config label after) :
    Settling plan before after := by
  cases effect with
  | quiet => exact settling
  | attempted => exact settling_keep settling settling.agree (by simp) fun _ => id
  | gaveUp =>
    exact settling_keep settling (settling.agree.disconnect _) (by simp) fun _ => linkSet_disconnect
  | sent => exact settling_keep settling settling.agree (by simp) fun _ => id
  | reported => exact settling_keep settling settling.agree (by simp) fun _ => id
  | unsolved => exact absurd rfl (permitted _)
  | planned => exact absurd rfl (permitted _)
  | stored =>
    exact settling_keep settling settling.agree
      (fun _ _ => Multiset.mem_erase_of_ne (by simp)) fun _ => id
  | rewired inFlight handled => exact settling_rewired carried settling inFlight handled
  | received =>
    exact settling_keep settling settling.agree
      (fun _ _ => Multiset.mem_erase_of_ne (by simp)) fun _ => id
  | forwarded =>
    refine settling_keep settling settling.agree (fun device actions => ?_) fun _ => id
    simp [Multiset.mem_erase_of_ne]
  | moved => exact settling_keep settling settling.agree (by simp) fun _ => id

theorem linked_indexed {net : FogNetwork} {config : Config} (reachable : Reachable net config)
    {sender receiver : Device} (linked : (sender, receiver) ∈ linkSet config.state.gates) :
    sender.Mobile ∧ ¬ receiver.Mobile ∧ ∃ (a b : Nat) (saved : SavedMsg), a ≠ b ∧
      config.state.participant[a]? = some saved ∧ saved.ctx.device = sender.getFullName ∧
      (bDevices net)[b]? = some receiver := by
  have known := reachable_wellformed reachable
  obtain ⟨old, oldSender, oldReceiver, _, sent, planned, isSender, isReceiver⟩ :=
    known.planned _ _ linked
  cases isSender
  cases isReceiver
  obtain ⟨a, b, different, aName, bName⟩ :=
    planned_indexed reachable old.names sent _ (mem_names.mpr planned)
  rw [List.getElem?_map, Option.map_eq_some_iff] at aName bName
  obtain ⟨saved, savedAt, savedName⟩ := aName
  obtain ⟨device, deviceAt, deviceName⟩ := bName
  cases getFullName_injective deviceName
  exact ⟨old.senders_mobile _ planned, old.receivers_immobile _ planned, a, b, saved, different, savedAt,
    (known.registered.named saved (List.mem_of_getElem? savedAt)).symm.trans savedName, deviceAt⟩

/-- After a round with the full solution list, once its messages are handled, a link that is no
    entry of the round's plan joins hosts that the round saw more than 1000 apart on some axis. -/
theorem no_stale_link {net : FogNetwork} {before middle after : Config} {choice : Choice}
    (reachable : Reachable net before) (settled : Settled before)
    (full : before.state.participant.length = net.numHosts)
    (enumerated : (before.state.problem net).Enumerated choice.solutions)
    (round : Step net before (.timer .coordinatorTick choice) middle)
    (handling : Run (Step net) noRound middle after) (done : Settled after) :
    ∀ sender receiver, (sender, receiver) ∈ linkSet after.state.gates →
      NewlyPlanned before middle sender receiver ∨ FarApart before.state sender receiver := by
  obtain ⟨plan, carried, starts, newly, maximal⟩ :=
    round_starts_settling (reachable_wellformed reachable) settled full enumerated (step_effect round)
  have settling : Settling plan before after :=
    run_invariant (Settling plan before) (fun _ _ _ settling permitted effect =>
      settling_effect carried settling permitted effect) handling starts
  intro sender receiver linked
  rcases settling.links sender receiver linked with planned | ⟨stood, cleared⟩
  · exact Or.inl (newly sender receiver planned)
  · obtain ⟨mobile, immobile, a, b, saved, different, savedAt, named, deviceAt⟩ :=
      linked_indexed reachable stood
    refine Or.inr ⟨saved, List.mem_of_getElem? savedAt, named, ?_⟩
    by_contra near
    simp only [not_or, not_lt] at near
    have aIs : (before.state.problem net).aName a = sender.getFullName :=
      (aName_stored savedAt).trans named
    have bIs : (before.state.problem net).bName b = receiver.getFullName := bName_device deviceAt
    -- a pair of the new plan touches one of the two hosts, in the role that the host can play
    have touched :=
      maximal a b ((satisfies_stored savedAt deviceAt).mpr ⟨near.1, near.2, different⟩)
    rw [aIs, bIs] at touched
    have clear : ∀ pair ∈ plan.pairs, sender ≠ pair.1 ∧ receiver ≠ pair.2 := fun pair planned =>
      (cleared pair planned).resolve_left (done _ _)
    rcases touched with touches | touches
    · obtain ⟨pair, planned, isEnd⟩ := plan_touches touches
      rcases isEnd with rfl | rfl
      · exact (clear pair planned).1 rfl
      · exact plan.receivers_immobile pair planned mobile
    · obtain ⟨pair, planned, isEnd⟩ := plan_touches touches
      rcases isEnd with rfl | rfl
      · exact immobile (plan.senders_mobile pair planned)
      · exact (clear pair planned).2 rfl

def firstHandling : List Label :=
  let actions := encode [((Device.mk .mobileHost 0).getFullName, (Device.mk .fogHost 0).getFullName)]
  firstLink ++ [.deliver (.action ⟨.fogHost, 0⟩ actions), .deliver (.action ⟨.cloudHost, 0⟩ actions)]

def secondHandling : List Label :=
  let actions := encode [((Device.mk .mobileHost 0).getFullName, (Device.mk .fogHost 0).getFullName)]
  [.deliver (.action ⟨.cloudHost, 0⟩ actions), .deliver (.action ⟨.mobileHost, 0⟩ actions),
    .deliver (.action ⟨.fogHost, 0⟩ actions)]

theorem no_stale_link_secondHandling :
    ∃ before middle after, Reachable (.ofSizes 1 1 1) before ∧
      Run (Step (.ofSizes 1 1 1)) noRound middle after ∧
      (⟨.mobileHost, 0⟩, ⟨.fogHost, 0⟩) ∈ linkSet after.state.gates ∧
      (NewlyPlanned before middle ⟨.mobileHost, 0⟩ ⟨.fogHost, 0⟩ ∨
        FarApart before.state ⟨.mobileHost, 0⟩ ⟨.fogHost, 0⟩) := by
  let net := FogNetwork.ofSizes 1 1 1
  let start := Config.initial fun _ => ⟨0, 0⟩
  have first : (start.play net firstHandling).map (fun config => (config.pending,
      config.state.participant.length, satisfyingTable (config.state.problem net))) =
        some (0, 1, [(0, 1)]) := by decide +kernel
  have second : (start.play net
      (firstHandling ++ .timer .coordinatorTick ⟨0, [(0, 1)]⟩ :: secondHandling)).map (fun config =>
        (config.pending, config.state.gates.nextGate (.sourceOut ⟨.mobileHost, 0⟩))) =
          some (0, some (.componentIn ⟨.fogHost, 0⟩)) := by decide +kernel
  obtain ⟨before, reached, beforeFacts⟩ := Option.map_eq_some_iff.mp first
  obtain ⟨after, finished, afterFacts⟩ := Option.map_eq_some_iff.mp second
  simp only [Prod.mk.injEq] at beforeFacts afterFacts
  obtain ⟨settled, full, table⟩ := beforeFacts
  obtain ⟨done, linked⟩ := afterFacts
  rw [Config.play, List.foldlM_append] at finished
  obtain ⟨again, isAgain, rest⟩ := Option.bind_eq_some_iff.mp finished
  cases Option.some.inj (isAgain.symm.trans reached)
  obtain ⟨middle, round, handled⟩ := Option.bind_eq_some_iff.mp rest
  have reachable : Reachable net before := play_reachable reached
  have handling : Run (Step net) noRound middle after :=
    play_run (by simp [secondHandling, noRound]) handled
  have enumerated : (before.state.problem net).Enumerated [(0, 1)] := fun a b =>
    table ▸ mem_table (problem_aligned _ _ _)
  refine ⟨before, middle, after, reachable, handling, linked, ?_⟩
  exact no_stale_link reachable (by simp [Settled, settled]) full enumerated (next_step round) handling
    (by simp [Settled, done]) _ _ linked

end FogNetProof.Runs
