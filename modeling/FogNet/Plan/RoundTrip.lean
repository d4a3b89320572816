import FogNet.Plan.Decoding

namespace FogNetProof.Plans

open FogNetModel FogNetModel.LocalCoordinator Matching FogNetProof.Names

theorem getFullName_clean (device : Device) : Clean device.getFullName :=
  ⟨vertical_absent device, dash_absent device⟩

theorem names_clean (plan : Plan) : ∀ pair ∈ plan.names, Clean pair.1 ∧ Clean pair.2 := by
  intro pair member
  obtain ⟨sender, receiver, _, rfl⟩ := names_of_mem member
  exact ⟨getFullName_clean sender, getFullName_clean receiver⟩

theorem parse_names (plan : Plan) (device : Device) :
    parse (encode plan.names) device.getFullName = .ok (roleIn plan.names device.getFullName) :=
  parse_encode (getFullName_nonempty device) (getFullName_clean device) (names_clean plan)

theorem roleIn_entry {plan : Plan} {device : Device} {pair : Device × Device}
    (member : pair ∈ plan.pairs) (isEnd : device = pair.1 ∨ device = pair.2) :
    roleIn plan.names device.getFullName =
      if device = pair.1 then .sender pair.2.getFullName else .receiver pair.1.getFullName := by
  have present : ((plan.names.find? fun names =>
      device.getFullName <:+: names.1 ∨ device.getFullName <:+: names.2)).isSome := by
    rw [List.find?_isSome]
    refine ⟨fullNames pair, List.mem_map_of_mem member, ?_⟩
    simpa [fullNames, getFullName_occurs] using isEnd
  obtain ⟨names, found⟩ := Option.isSome_iff_exists.mp present
  obtain ⟨sender, receiver, inPlan, rfl⟩ := names_of_mem (List.mem_of_find?_eq_some found)
  have hit := List.find?_some found
  simp only [getFullName_occurs, decide_eq_true_eq] at hit
  have same : (sender, receiver) = pair := plan.matching.edge_unique inPlan member hit isEnd
  subst same
  simp only [roleIn, found]
  by_cases isSender : device = sender
  · simp [isSender]
  · have notPrefix : ¬ device.getFullName <+: sender.getFullName := fun isPrefix =>
      isSender (getFullName_occurs.mp isPrefix.isInfix)
    simp [isSender, notPrefix]

theorem parse_sender {plan : Plan} {device receiver : Device}
    (planned : (device, receiver) ∈ plan.pairs) :
    parse (encode plan.names) device.getFullName = .ok (.sender receiver.getFullName) := by
  rw [parse_names, roleIn_entry planned (Or.inl rfl), if_pos rfl]

theorem parse_receiver {plan : Plan} {device sender : Device}
    (planned : (sender, device) ∈ plan.pairs) :
    parse (encode plan.names) device.getFullName = .ok (.receiver sender.getFullName) := by
  rw [parse_names, roleIn_entry planned (Or.inr rfl), if_neg]
  exact (plan.matching.ends_differ planned).symm

theorem parse_idle {plan : Plan} {device : Device}
    (unplanned : ∀ pair ∈ plan.pairs, pair.1 ≠ device ∧ pair.2 ≠ device) :
    parse (encode plan.names) device.getFullName = .ok .idle := by
  have absent : (plan.names.find? fun names =>
      device.getFullName <:+: names.1 ∨ device.getFullName <:+: names.2) = none := by
    rw [List.find?_eq_none]
    intro names member
    obtain ⟨sender, receiver, inPlan, rfl⟩ := names_of_mem member
    have outside := unplanned _ inPlan
    simp only [getFullName_occurs, decide_eq_true_eq, not_or]
    exact ⟨outside.1.symm, outside.2.symm⟩
  rw [parse_names, roleIn, absent]

theorem plan_cases (plan : Plan) (device : Device) :
    (∃ receiver, (device, receiver) ∈ plan.pairs) ∨ (∃ sender, (sender, device) ∈ plan.pairs) ∨
      ∀ pair ∈ plan.pairs, pair.1 ≠ device ∧ pair.2 ≠ device := by
  by_cases sends : ∃ receiver, (device, receiver) ∈ plan.pairs
  · exact Or.inl sends
  · by_cases receives : ∃ sender, (sender, device) ∈ plan.pairs
    · exact Or.inr (Or.inl receives)
    · refine Or.inr (Or.inr fun pair member => ⟨?_, ?_⟩)
      · rintro rfl
        exact sends ⟨pair.2, member⟩
      · rintro rfl
        exact receives ⟨pair.1, member⟩

theorem sender_not_receiver {plan : Plan} {device sender receiver : Device}
    (sends : (device, receiver) ∈ plan.pairs) : (sender, device) ∉ plan.pairs := by
  intro receives
  have same := plan.matching.edge_unique sends receives (Or.inl rfl) (Or.inr rfl)
  exact plan.matching.ends_differ sends (congrArg Prod.snd same).symm

/-- Decoding undoes encoding: every host reads its own part of the plan and nothing else. -/
theorem decode_encode (plan : Plan) (device : Device) :
    (∀ destination, parse (encode plan.names) device.getFullName = .ok (.sender destination) ↔
      ∃ receiver, (device, receiver) ∈ plan.pairs ∧ destination = receiver.getFullName) ∧
    (∀ peer, parse (encode plan.names) device.getFullName = .ok (.receiver peer) ↔
      ∃ sender, (sender, device) ∈ plan.pairs ∧ peer = sender.getFullName) ∧
    (parse (encode plan.names) device.getFullName = .ok .idle ↔
      ∀ pair ∈ plan.pairs, pair.1 ≠ device ∧ pair.2 ≠ device) := by
  rcases plan_cases plan device with ⟨receiver, sends⟩ | ⟨sender, receives⟩ | unplanned
  · have only : ∀ other, (device, other) ∈ plan.pairs → other = receiver := fun other planned =>
      congrArg Prod.snd (plan.matching.edge_unique planned sends (Or.inl rfl) (Or.inl rfl))
    rw [parse_sender sends]
    refine ⟨fun destination => ?_, fun peer => ?_, ?_⟩
    · simp only [Except.ok.injEq, Role.sender.injEq]
      constructor
      · rintro rfl
        exact ⟨receiver, sends, rfl⟩
      · rintro ⟨other, planned, rfl⟩
        rw [only other planned]
    · simp [sender_not_receiver sends]
    · simp only [Except.ok.injEq, reduceCtorEq, false_iff]
      exact fun unplanned => (unplanned _ sends).1 rfl
  · have only : ∀ other, (other, device) ∈ plan.pairs → other = sender := fun other planned =>
      congrArg Prod.fst (plan.matching.edge_unique planned receives (Or.inr rfl) (Or.inr rfl))
    rw [parse_receiver receives]
    refine ⟨fun destination => ?_, fun peer => ?_, ?_⟩
    · have notSender : ∀ other, (device, other) ∉ plan.pairs := fun other sends =>
        sender_not_receiver sends receives
      simp [notSender]
    · simp only [Except.ok.injEq, Role.receiver.injEq]
      constructor
      · rintro rfl
        exact ⟨sender, receives, rfl⟩
      · rintro ⟨other, planned, rfl⟩
        rw [only other planned]
    · simp only [Except.ok.injEq, reduceCtorEq, false_iff]
      exact fun unplanned => (unplanned _ receives).2 rfl
  · rw [parse_idle unplanned]
    refine ⟨fun destination => ?_, fun peer => ?_, ?_⟩
    · simp only [Except.ok.injEq, reduceCtorEq, false_iff]
      rintro ⟨receiver, sends, _⟩
      exact (unplanned _ sends).1 rfl
    · simp only [Except.ok.injEq, reduceCtorEq, false_iff]
      rintro ⟨sender, receives, _⟩
      exact (unplanned _ receives).2 rfl
    · simpa using unplanned

/-- A plan string has one reading, whatever names without bars and dashes are in it. -/
theorem encode_unambiguous {left right : List (List Char × List Char)}
    (leftClean : ∀ pair ∈ left, Clean pair.1 ∧ Clean pair.2)
    (rightClean : ∀ pair ∈ right, Clean pair.1 ∧ Clean pair.2) (same : encode left = encode right) :
    left = right := by
  induction left generalizing right with
  | nil =>
    cases right with
    | nil => rfl
    | cons pair right => simp [encode, entry] at same
  | cons pair left ih =>
    cases right with
    | nil => simp [encode, entry] at same
    | cons other right =>
      obtain ⟨⟨_, senderDash⟩, receiverBar, _⟩ := leftClean pair List.mem_cons_self
      obtain ⟨⟨_, otherDash⟩, otherBar, _⟩ := rightClean other List.mem_cons_self
      rw [encode_cons, encode_cons, List.cons.injEq] at same
      obtain ⟨senders, rest⟩ := Text.split_at_separator senderDash otherDash same.2
      obtain ⟨receivers, later⟩ := Text.split_at_separator receiverBar otherBar rest
      rw [Prod.ext senders receivers, ih (fun pair member => leftClean pair (List.mem_cons_of_mem _ member))
        (fun pair member => rightClean pair (List.mem_cons_of_mem _ member)) (congrArg (List.cons '|') later)]

end FogNetProof.Plans
