import FogNet.Coordinator.FirstFit
import FogNet.System.Reporting

namespace FogNetModel

open CentralizedCoordinator Kernel

/-- The plan of a round that gets the full solution list in the solver's order. -/
def State.firstFitPlan (net : FogNetwork) (state : State) : List (List Char × List Char) :=
  (state.problem net).directPlan.map (state.problem net).names

/-- Each round past its guard gets all solutions, in the solver's order. -/
def FullRounds (net : FogNetwork) (moments : List Moment) : Prop :=
  ∀ moment ∈ moments, moment.event = .coordinatorTick →
    moment.met.participant.length = net.numHosts →
      (moment.met.problem net).Enumerated moment.choice.solutions ∧
        moment.choice.solutions.Pairwise Lexicographic

/-- All rounds past the guard have the same plan. -/
def OnePlan (net : FogNetwork) (moments : List Moment) (names : List (List Char × List Char)) : Prop :=
  ∀ round ∈ moments, round.event = .coordinatorTick → round.met.participant.length = net.numHosts →
    round.met.firstFitPlan net = names

end FogNetModel

namespace FogNetProof.Runs

open FogNetModel FogNetModel.CentralizedCoordinator Kernel Matching FogNetProof.Links FogNetProof.Names
  FogNetProof.Plans FogNetProof.Rounds

variable {net : FogNetwork} {position : Device → Coord} {moments : List Moment} {sim : Simulation}
  {sender receiver : Device}

theorem selected_firstFit {state : State} (registered : Registered net state.participant)
    {solutions : List (Nat × Nat)} (enumerated : (state.problem net).Enumerated solutions)
    (ordered : solutions.Pairwise Lexicographic) {selection : Selection}
    (selected : select (state.problem net) solutions = .ok selection) :
    selection.plan = state.firstFitPlan net := by
  have aligned : (state.problem net).Aligned := problem_aligned _ _ _
  have inRange := sound_inRange aligned (enumerated_sound enumerated)
  rw [(selected_eq inRange selected).1, State.firstFitPlan,
    ← greedy_eq_directPlan aligned (problem_distinct registered) enumerated ordered]

theorem fullRounds_table (table : ∀ moment ∈ moments, moment.event = .coordinatorTick →
      moment.met.participant.length = net.numHosts →
        satisfyingTable (moment.met.problem net) = moment.choice.solutions) : FullRounds net moments := by
  intro moment member isRound full
  rw [← table moment member isRound full]
  exact ⟨fun a b => mem_table (problem_aligned _ _ _), table_lexicographic _⟩

section Steps

theorem rewired_link {plan : Plan} (carried : net.Carries plan) {gates after : Gates} (agree : gates.Agree)
    {device : Device}
    (handled : LocalCoordinator.handleAction net device (encode plan.names) gates = .ok after)
    (planned : (sender, receiver) ∈ plan.pairs)
    (linked : (sender, receiver) ∈ linkSet gates ∨ device = sender) : (sender, receiver) ∈ linkSet after := by
  obtain ⟨result, resultAgree, reached, same⟩ := handleAction_plan carried agree device
  cases Except.ok.inj (reached.symm.trans handled)
  have goal : (OutGate.sourceOut sender, InGate.componentIn receiver) ∈ resultAgree.matching.pairs := by
    rw [same, assigned]
    by_cases own : device = sender
    · subst own
      rw [receiverOf_eq_some.mpr planned, PartialMatching.mem_assign]
      exact Or.inl ⟨rfl, rfl⟩
    · have old := linked.resolve_right own
      cases found : plan.receiverOf device with
      | none => exact old
      | some other =>
        refine PartialMatching.mem_assign.mpr (Or.inr ⟨old, fun isSender => ?_, fun isReceiver => ?_⟩)
        · exact own (OutGate.sourceOut.inj isSender).symm
        · have samePair := plan.matching.edge_unique planned (receiverOf_eq_some.mp found)
            (Or.inr rfl) (Or.inr (InGate.componentIn.inj isReceiver))
          exact own (congrArg Prod.fst samePair).symm
  exact goal

/-- A link that all plans have is neither given up within reach nor taken away. -/
theorem kept_link {before after : Config} {label : Label} (known : Wellformed net before)
    (planned : ∀ names, .planSent names ∈ before.trace → fullNames (sender, receiver) ∈ names)
    (near : ¬ outOfReach (before.state.position sender) (before.state.position receiver))
    (linked : (sender, receiver) ∈ linkSet before.state.gates) (effect : Effect net before label after) :
    (sender, receiver) ∈ linkSet after.state.gates := by
  cases effect with
  | @gaveUp device peer choice held mobile toPeer far =>
    simp only [linkSet, Set.mem_ofPred_eq, Wires.disconnect_nextGate]
    split
    · rename_i own
      cases own
      have isPeer : peer = receiver := InGate.componentIn.inj (Option.some.inj (toPeer.symm.trans linked))
      exact absurd (isPeer ▸ far) near
    · exact linked
  | @rewired device actions gates flying handled =>
    obtain ⟨plan, carried, sent, rfl⟩ := known.actions device actions flying
    exact rewired_link carried known.agree handled (mem_names.mp (planned _ sent)) (Or.inl linked)
  | quiet | attempted | sent | reported | unsolved | planned | stored | received | forwarded | moved =>
    exact linked

theorem event_pending {before after : Simulation} {moment : Moment} (handles : before.Handles net moment after)
    {content : Message} (isMessage : moment.event = .message content) : content ∈ before.config.pending := by
  obtain ⟨rest, events, _⟩ := handles.became
  refine Multiset.mem_coe.mpr (List.mem_filterMap.mpr ⟨.message content, ?_, rfl⟩)
  rw [events, ← isMessage]
  exact List.mem_cons_self

/-- An action message links its device as all plans say. -/
theorem action_links {before after : Simulation} {moment : Moment}
    (run : TimedRun net position moments before) (handles : before.Handles net moment after)
    (planned : ∀ names, .planSent names ∈ before.trace → fullNames (sender, receiver) ∈ names)
    {actions : List Char} (isAction : moment.event = .message (.action sender actions)) :
    (sender, receiver) ∈ linkSet after.state.gates := by
  have known := met_wellformed run handles
  obtain ⟨plan, carried, sent, text⟩ := known.actions sender actions (event_pending handles isAction)
  have handled := handles.handled
  rw [isAction, text] at handled
  obtain ⟨gates, rewired, returned⟩ := bind_ok handled
  obtain ⟨rest, events, rfl⟩ := handles.became
  have same : moment.reaction.state.gates = gates := by rw [← Except.ok.inj returned]
  show (sender, receiver) ∈ linkSet moment.reaction.state.gates
  rw [same]
  exact rewired_link carried known.agree rewired (mem_names.mp (planned _ sent)) (Or.inr rfl)

/-- A round past its guard sends an action message to every sender of its plan. -/
theorem round_sends {before after : Simulation} {round : Moment} (known : Wellformed net before.config)
    (handles : before.Handles net round after) (isRound : round.event = .coordinatorTick)
    (passed : round.met.participant.length = net.numHosts)
    (enumerated : (round.met.problem net).Enumerated round.choice.solutions)
    (ordered : round.choice.solutions.Pairwise Lexicographic)
    (planned : fullNames (sender, receiver) ∈ round.met.firstFitPlan net) :
    ∃ actions, (channelDelay, .message (.action sender actions)) ∈ round.reaction.scheduled := by
  have registered : Registered net round.met.participant := met_participant handles ▸ known.registered
  have aligned : (round.met.problem net).Aligned := problem_aligned _ _ _
  have nonempty : round.choice.solutions ≠ [] := by
    intro none
    have noPlan := greedy_eq_directPlan aligned (problem_distinct registered) enumerated ordered
    rw [none] at noPlan
    rw [State.firstFitPlan, ← noPlan] at planned
    simp [greedy] at planned
  have sound := enumerated_sound enumerated
  obtain ⟨selection, selected, _⟩ := select_eq (sound_inRange aligned sound)
  obtain ⟨plan, names, _, carried⟩ := selected_plan registered round.met.position sound selected
  have isPlan := selected_firstFit registered enumerated ordered selected
  have held := (carried _ (mem_names.mp (names ▸ isPlan ▸ planned))).1
  have handled := handles.handled
  rw [isRound] at handled
  have reacts := handle_reacts handled
  generalize round.reaction = reaction at reacts
  cases reacts with
  | waiting partly => exact absurd passed partly
  | unsolved _ none => exact absurd none nonempty
  | @planned sent =>
    refine ⟨sent.coordinationResultsStr, List.mem_cons_of_mem _ (List.mem_map.mpr ?_)⟩
    exact ⟨sender, mem_actionGates.mpr held, rfl⟩

end Steps

/-- A link that all plans have and that stays within reach lasts once its sender has got a plan. -/
theorem link_lasts (run : TimedRun net position moments sim)
    (planned : ∀ names, .planSent names ∈ sim.trace → fullNames (sender, receiver) ∈ names)
    (near : ∀ moment ∈ moments, ¬ outOfReach (moment.met.position sender) (moment.met.position receiver)) :
    ∀ moment ∈ moments, (sender, receiver) ∈ linkSet moment.met.gates ∨
      (∃ actions, moment.event = .message (.action sender actions)) →
        (sender, receiver) ∈ linkSet sim.state.gates := by
  induction run with
  | refl => simp
  | @snoc moments before after last run handles ih =>
    have earlier : ∀ names, .planSent names ∈ before.trace → fullNames (sender, receiver) ∈ names := by
      intro names sent
      obtain ⟨rest, events, rfl⟩ := handles.became
      exact planned names (List.mem_append_left _ sent)
    have here : last ∈ moments ++ [last] := List.mem_append_right _ (List.mem_singleton.mpr rfl)
    have kept : (sender, receiver) ∈ linkSet last.met.gates → (sender, receiver) ∈ linkSet after.state.gates :=
      fun linked => kept_link (met_wellformed run handles) earlier (near last here) linked
        (handles_effects run handles).2
    intro moment member reason
    rcases List.mem_append.mp member with old | new
    · have linked := ih earlier (fun other isOld => near other (List.mem_append_left _ isOld)) moment old reason
      rw [← met_gates handles] at linked
      exact kept linked
    · obtain rfl := List.mem_singleton.mp new
      rcases reason with linked | ⟨actions, isAction⟩
      · exact kept linked
      · exact action_links run handles earlier isAction

section OnePlan

variable (run : TimedRun net position moments sim) (full : FullRounds net moments)
  {common : List (List Char × List Char)} (one : OnePlan net moments common)

include run full one

theorem onePlan_sent {names : List (List Char × List Char)} (sent : .planSent names ∈ sim.trace) :
    names = common := by
  rw [run_trace run] at sent
  obtain ⟨round, member, inReaction⟩ := List.mem_flatMap.mp sent
  obtain ⟨_, _, before, after, _, first, handles⟩ := run_handles run member
  obtain ⟨isRound, passed, selection, selected, rfl, _⟩ := handle_planned handles.handled inReaction
  obtain ⟨enumerated, ordered⟩ := full round member isRound passed
  rw [selected_firstFit (met_wellformed first handles).registered enumerated ordered selected]
  exact one round member isRound passed

theorem onePlan_linked (linked : (sender, receiver) ∈ linkSet sim.state.gates) :
    fullNames (sender, receiver) ∈ common := by
  obtain ⟨plan, planned, other, _, sent, member, isSender, isReceiver⟩ :=
    (reachable_wellformed (run_reachable run)).planned _ _ linked
  cases isSender
  cases isReceiver
  rw [← onePlan_sent run full one sent]
  exact mem_names.mpr member

/-- After the first round that surely passes its guard, the links of the one plan within reach are there. -/
theorem onePlan_reached {period now : Nat}
    (prompt : ∀ moment ∈ moments, moment.event = .coordinatorTick → moment.choice.interval ≤ period)
    (future : ∀ entry ∈ sim.events, now ≤ entry.1)
    (late : channelDelay + period + channelDelay < now) (planned : fullNames (sender, receiver) ∈ common)
    (near : ∀ moment ∈ moments, ¬ outOfReach (moment.met.position sender) (moment.met.position receiver)) :
    (sender, receiver) ∈ linkSet sim.state.gates := by
  have far : channelDelay + period < now := by omega
  obtain ⟨round, member, isRound, after, before⟩ := tick_within .coordinatorTick trivial run prompt future far
  obtain ⟨_, _, start, next, _, first, handles⟩ := run_handles run member
  have passed := participant_late first handles after
  obtain ⟨enumerated, ordered⟩ := full round member isRound passed
  obtain ⟨actions, scheduled⟩ := round_sends (reachable_wellformed (run_reachable first)) handles isRound
    passed enumerated ordered (one round member isRound passed ▸ planned)
  obtain ⟨moment, handled, isEntry⟩ := List.mem_map.mp
    ((run_accounted run).due_handled future (moment_asked member scheduled) (by omega))
  exact link_lasts run (fun names sent => onePlan_sent run full one sent ▸ planned) near moment handled
    (Or.inr ⟨actions, congrArg Prod.snd isEntry⟩)

end OnePlan

end FogNetProof.Runs
