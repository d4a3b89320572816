import FogNet.Kernel.Wires
import FogNet.Network.FogNetwork
import FogNet.Plan.RoundTrip

namespace FogNetModel

open Kernel Matching

/-- The output gates of a host's `app` that the program reads or rewires: `a.out[0]` and `b.out`. -/
inductive OutGate where
  | sourceOut (device : Device)
  | componentOut (device : Device)
  deriving DecidableEq, Repr

inductive InGate where
  | componentIn (device : Device)
  deriving DecidableEq, Repr

def InGate.device : InGate → Device
  | .componentIn device => device

abbrev Gates := Wires OutGate InGate

def FogNetwork.Carries (net : FogNetwork) (plan : Plan) : Prop :=
  ∀ pair ∈ plan.pairs, net.Holds pair.1 ∧ net.Holds pair.2

def Plan.receiverOf (plan : Plan) (device : Device) : Option Device :=
  (plan.pairs.find? fun pair => pair.1 = device).map Prod.snd

def connectFault : ConnectError → Fault
  | .alreadyConnected => .alreadyConnected

/-- Handling an action message: only a sender rewires anything, its own gate and its receiver's. -/
def LocalCoordinator.handleAction (net : FogNetwork) (device : Device) (actions : List Char)
    (gates : Gates) : Except Fault Gates := do
  match ← parse actions device.getFullName with
  | .idle => return gates
  | .receiver _ => return gates
  | .sender destination =>
    match net.getModuleByPath destination with
    | none => .error .nullPointer
    | some .centralizedCoordinator => .error .nullPointer
    | some (.host dest) =>
      let sourceGate := OutGate.sourceOut device
      let destGate := InGate.componentIn dest
      let freed := match gates.previousGate destGate with
        | some prevGate => gates.disconnect prevGate
        | none => gates
      ((freed.disconnect sourceGate).connectTo sourceGate destGate).mapError connectFault

/-- The mobile hosts and the hosts that their sources are connected to. -/
def linkSet (gates : Gates) : Set (Device × Device) :=
  {pair | gates.nextGate (.sourceOut pair.1) = some (.componentIn pair.2)}

def gatePair (pair : Device × Device) : OutGate × InGate := (.sourceOut pair.1, .componentIn pair.2)

end FogNetModel

namespace FogNetProof.Links

open FogNetModel FogNetModel.LocalCoordinator Kernel Matching FogNetProof.Names FogNetProof.Plans

theorem receiverOf_eq_some {plan : Plan} {device receiver : Device} :
    plan.receiverOf device = some receiver ↔ (device, receiver) ∈ plan.pairs := by
  constructor
  · intro found
    obtain ⟨⟨sender, other⟩, search, rfl⟩ := Option.map_eq_some_iff.mp found
    have named := List.find?_some search
    simp only [decide_eq_true_eq] at named
    exact named ▸ List.mem_of_find?_eq_some search
  · intro planned
    have present : (plan.pairs.find? fun pair => pair.1 = device).isSome := by
      rw [List.find?_isSome]
      exact ⟨_, planned, by simp⟩
    obtain ⟨pair, search⟩ := Option.isSome_iff_exists.mp present
    have named := List.find?_some search
    simp only [decide_eq_true_eq] at named
    have same := plan.matching.edge_unique (List.mem_of_find?_eq_some search) planned
      (Or.inl named.symm) (Or.inl rfl)
    rw [Plan.receiverOf, search, same, Option.map_some]

def assigned (matching : PartialMatching OutGate InGate) (plan : Plan) (device : Device) :
    PartialMatching OutGate InGate :=
  match plan.receiverOf device with
  | some receiver => matching.assign (.sourceOut device) (.componentIn receiver)
  | none => matching

theorem handleAction_plan {net : FogNetwork} {plan : Plan} (carried : net.Carries plan)
    {gates : Gates} (agree : gates.Agree) (device : Device) :
    ∃ (after : Gates) (afterAgree : after.Agree),
      handleAction net device (encode plan.names) gates = .ok after ∧
      afterAgree.matching = assigned agree.matching plan device := by
  rcases plan_cases plan device with ⟨receiver, sends⟩ | ⟨sender, receives⟩ | unplanned
  · have dest := getModuleByPath_host (carried _ sends).2
    obtain ⟨after, afterAgree, connected, same⟩ :=
      agree.reconnect (.sourceOut device) (.componentIn receiver)
    refine ⟨after, afterAgree, ?_, ?_⟩
    · simp only [handleAction, parse_sender sends, dest, Bind.bind, Except.bind]
      rw [Wires.reconnect] at connected
      cases back : gates.previousGate (.componentIn receiver) <;>
        simp only [back] at connected ⊢ <;> rw [connected] <;> rfl
    · rw [same, assigned, receiverOf_eq_some.mpr sends]
  · have notSender : plan.receiverOf device = none := by
      cases found : plan.receiverOf device with
      | none => rfl
      | some receiver =>
        exact absurd receives (sender_not_receiver (receiverOf_eq_some.mp found))
    refine ⟨gates, agree, ?_, by rw [assigned, notSender]⟩
    simp [handleAction, parse_receiver receives, Bind.bind, Except.bind, Pure.pure, Except.pure]
  · have notSender : plan.receiverOf device = none := by
      cases found : plan.receiverOf device with
      | none => rfl
      | some receiver => exact absurd rfl (unplanned _ (receiverOf_eq_some.mp found)).1
    refine ⟨gates, agree, ?_, by rw [assigned, notSender]⟩
    simp [handleAction, parse_idle unplanned, Bind.bind, Except.bind, Pure.pure, Except.pure]

def carriedOut (plan : Plan) (order : List Device) : List (Device × Device) :=
  order.filterMap fun device => (plan.receiverOf device).map fun receiver => (device, receiver)

theorem mem_carriedOut {plan : Plan} {order : List Device} {pair : Device × Device} :
    pair ∈ carriedOut plan order ↔ pair.1 ∈ order ∧ pair ∈ plan.pairs := by
  obtain ⟨sender, receiver⟩ := pair
  simp only [carriedOut, List.mem_filterMap, Option.map_eq_some_iff, Prod.mk.injEq,
    receiverOf_eq_some]
  constructor
  · rintro ⟨device, member, other, planned, rfl, rfl⟩
    exact ⟨member, planned⟩
  · rintro ⟨member, planned⟩
    exact ⟨sender, member, receiver, planned, rfl, rfl⟩

theorem carriedOut_perm {net : FogNetwork} {plan : Plan} (carried : net.Carries plan)
    {order : List Device} (delivery : order.Perm net.actionGates) :
    (carriedOut plan order).Perm plan.pairs := by
  have distinct : order.Nodup := delivery.nodup_iff.mpr (actionGates_nodup net)
  have planDistinct : plan.pairs.Nodup := (plan.matching.senders_nodup).of_map
  have partDistinct : (carriedOut plan order).Nodup := by
    refine List.Nodup.filterMap ?_ distinct
    intro left right pair first second
    simp only [Option.mem_def, Option.map_eq_some_iff] at first second
    obtain ⟨_, _, rfl⟩ := first
    obtain ⟨_, _, same⟩ := second
    exact (congrArg Prod.fst same).symm
  refine (List.perm_ext_iff_of_nodup partDistinct planDistinct).mpr fun pair => ?_
  rw [mem_carriedOut, delivery.mem_iff, mem_actionGates]
  exact ⟨And.right, fun planned => ⟨(carried pair planned).1, planned⟩⟩

/-- The deliveries of one plan carry out its assignments one after the other. The induction is on
    the hosts still to be served. -/
theorem deliveries {net : FogNetwork} {plan : Plan} (carried : net.Carries plan)
    (order : List Device) {gates : Gates} (agree : gates.Agree) :
    ∃ (after : Gates) (afterAgree : after.Agree),
      order.foldlM (fun current device => handleAction net device (encode plan.names) current) gates =
        .ok after ∧
      afterAgree.matching = agree.matching.assignAll ((carriedOut plan order).map gatePair) := by
  induction order generalizing gates with
  | nil => exact ⟨gates, agree, rfl, rfl⟩
  | cons device order ih =>
    obtain ⟨middle, middleAgree, handled, first⟩ := handleAction_plan carried agree device
    obtain ⟨after, afterAgree, rest, last⟩ := ih middleAgree
    refine ⟨after, afterAgree, ?_, ?_⟩
    · rw [List.foldlM_cons, handled]
      exact rest
    · rw [last, first, assigned]
      cases planned : plan.receiverOf device with
      | none => simp [carriedOut, planned]
      | some receiver => simp [carriedOut, planned, PartialMatching.assignAll, gatePair]

theorem gatePairs_distinct (plan : Plan) :
    ((plan.pairs.map gatePair).map Prod.fst).Nodup ∧ ((plan.pairs.map gatePair).map Prod.snd).Nodup := by
  have senders := plan.matching.senders_nodup.map (f := OutGate.sourceOut) fun _ _ => OutGate.sourceOut.inj
  have receivers :=
    plan.matching.receivers_nodup.map (f := InGate.componentIn) fun _ _ => InGate.componentIn.inj
  rw [List.map_map] at senders receivers
  exact ⟨by simpa [List.map_map, Function.comp_def, gatePair] using senders,
    by simpa [List.map_map, Function.comp_def, gatePair] using receivers⟩

/-- One round of action messages, in any order of the hosts, refines the relation update: the plan
    overrides the links that touch one of its hosts, and repeating any message changes nothing. -/
theorem round_refines_update {net : FogNetwork} {plan : Plan} (carried : net.Carries plan)
    {gates : Gates} (agree : gates.Agree) {order : List Device}
    (delivery : order.Perm net.actionGates) :
    ∃ after : Gates,
      order.foldlM (fun current device => handleAction net device (encode plan.names) current) gates =
        .ok after ∧
      after.Agree ∧
      linkSet after = {pair | pair ∈ plan.pairs} ∪
        {pair ∈ linkSet gates | pair.1 ∉ plan.pairs.map Prod.fst ∧ pair.2 ∉ plan.pairs.map Prod.snd} ∧
      ∀ device, handleAction net device (encode plan.names) after = .ok after := by
  obtain ⟨after, afterAgree, handled, reached⟩ := deliveries carried order agree
  have perm := (carriedOut_perm carried delivery).map gatePair
  obtain ⟨senders, receivers⟩ := gatePairs_distinct plan
  rw [PartialMatching.assignAll_perm perm ((perm.map _).nodup_iff.mpr senders)
    ((perm.map _).nodup_iff.mpr receivers)] at reached
  have connections : ∀ source target, after.nextGate source = some target ↔
      (source, target) ∈ plan.pairs.map gatePair ∨ (gates.nextGate source = some target ∧
        source ∉ (plan.pairs.map gatePair).map Prod.fst ∧
        target ∉ (plan.pairs.map gatePair).map Prod.snd) := by
    intro source target
    rw [← afterAgree.mem_matching, reached, PartialMatching.mem_assignAll senders receivers,
      agree.mem_matching]
  refine ⟨after, handled, afterAgree, ?_, ?_⟩
  · ext ⟨sender, receiver⟩
    simp only [linkSet, Set.mem_ofPred_eq, connections, Set.mem_union]
    simp [gatePair]
  · intro device
    obtain ⟨again, againAgree, repeated, same⟩ := handleAction_plan carried afterAgree device
    rw [repeated]
    congr 1
    apply againAgree.eq_of_matching afterAgree
    rw [same, assigned]
    cases planned : plan.receiverOf device with
    | none => rfl
    | some receiver =>
      apply PartialMatching.assign_of_mem
      rw [Wires.Agree.mem_matching, connections]
      exact Or.inl (List.mem_map.mpr ⟨(device, receiver), receiverOf_eq_some.mp planned, rfl⟩)

def steal : Plan where
  pairs := [(⟨.mobileHost, 1⟩, ⟨.fogHost, 0⟩)]
  senders_mobile := by decide
  receivers_immobile := by decide
  matching := by
    unfold IsMatching
    decide

theorem round_refines_steal :
    ∃ after : Gates,
      [⟨.fogHost, 0⟩, ⟨.mobileHost, 1⟩, ⟨.mobileHost, 0⟩].foldlM (fun current device =>
        handleAction (.ofSizes 2 1 0) device (encode steal.names) current)
          (Wires.single (.sourceOut ⟨.mobileHost, 0⟩) (.componentIn ⟨.fogHost, 0⟩)) = .ok after ∧
      linkSet after = {pair | pair ∈ steal.pairs} := by
  have carried : (FogNetwork.ofSizes 2 1 0).Carries steal := by
    unfold FogNetwork.Carries
    decide
  have delivery : [⟨.fogHost, 0⟩, ⟨.mobileHost, 1⟩, ⟨.mobileHost, 0⟩].Perm
      (FogNetwork.ofSizes 2 1 0).actionGates := by decide
  obtain ⟨after, handled, _, links, _⟩ :=
    round_refines_update carried (Wires.single_agree _ _) delivery
  refine ⟨after, handled, links.trans ?_⟩
  -- the only old link loses its receiver
  ext ⟨sender, receiver⟩
  simp only [Set.mem_union, Set.mem_ofPred_eq, or_iff_left_iff_imp]
  rintro ⟨old, _, free⟩
  have isReceiver : InGate.componentIn ⟨.fogHost, 0⟩ = .componentIn receiver :=
    Option.some.inj (Option.ite_none_right_eq_some.mp old).2
  exact absurd (by simp [steal, ← InGate.componentIn.inj isReceiver]) free

end FogNetProof.Links
