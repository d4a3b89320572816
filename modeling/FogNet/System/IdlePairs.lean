import FogNet.Coordinator.FirstFit
import FogNet.Coordinator.Rounds
import FogNet.System.Handlers

namespace FogNetModel

open CentralizedCoordinator Matching

def CentralizedCoordinator.stored (history : List ContextSync) : List SavedMsg :=
  history.foldl handleSync []

def plannedPairs (outcome : Option Selection) : List (List Char × List Char) :=
  (outcome.map Selection.plan).getD []

def InReach (position : Device → Coord) (saved : SavedMsg) (receiver : Device) : Prop :=
  ¬ outOfReach ⟨saved.ctx.x, saved.ctx.y⟩ (position receiver)

/-- Of any two hosts within reach of each other, the plan names at least one. -/
def NoneIdle (net : FogNetwork) (participant : List SavedMsg) (position : Device → Coord)
    (plan : List (List Char × List Char)) : Prop :=
  ∀ saved ∈ participant, ∀ receiver, net.Holds receiver → ¬ receiver.Mobile →
    InReach position saved receiver →
      saved.ctx.device ∈ endpoints plan ∨ receiver.getFullName ∈ endpoints plan

/-- Whatever order the solver lists its solutions in, a round leaves no pair within reach idle. -/
def NeverIdle (net : FogNetwork) (participant : List SavedMsg) (position : Device → Coord) : Prop :=
  ∀ solutions, solutions.Nodup → (problem net participant position).Enumerated solutions →
    ∃ outcome, coordinate (problem net participant position) solutions = .ok outcome ∧
      NoneIdle net participant position (plannedPairs outcome)

/-- Disjoint satisfying pairs that leave both hosts of one index alone, and that take every other
    receiver admitted for its sender and every other sender admitted for its receiver. -/
structure Problem.Blocks (problem : Problem) (index : Nat) (others : List (Nat × Nat)) : Prop where
  sound : problem.Sound others
  senders : (others.map Prod.fst).Nodup
  receivers : (others.map Prod.snd).Nodup
  avoids : ∀ pair ∈ others, pair.1 ≠ index ∧ pair.2 ≠ index
  takesReceivers : ∀ b, problem.satisfies index b = true → b ∈ others.map Prod.snd
  takesSenders : ∀ a, problem.satisfies a index = true → a ∈ others.map Prod.fst

end FogNetModel

namespace FogNetProof.Rounds

open FogNetModel FogNetModel.CentralizedCoordinator Kernel Matching Numeric FogNetProof.Names

theorem stored_append (history more : List ContextSync) :
    stored (history ++ more) = more.foldl handleSync (stored history) :=
  List.foldl_append

theorem registered_stored {net : FogNetwork} {history : List ContextSync}
    (reported : ∀ ctx ∈ history, net.Reports ctx) : Registered net (stored history) := by
  induction history using List.reverseRecOn with
  | nil => exact registered_nil net
  | append_singleton history ctx ih =>
    have earlier := ih fun other member => reported other (List.mem_append_left _ member)
    rw [stored_append]
    exact registered_handleSync earlier (reported ctx (by simp))

theorem coordinate_eq {problem : Problem} {solutions : List (Nat × Nat)}
    (inRange : problem.InRange solutions) :
    ∃ outcome, coordinate problem solutions = .ok outcome ∧
      plannedPairs outcome = greedy [] (solutions.map problem.names) := by
  by_cases empty : solutions = []
  · subst empty
    exact ⟨none, rfl, rfl⟩
  · obtain ⟨selection, reached, plan, _⟩ := select_eq inRange
    refine ⟨some selection, ?_, plan⟩
    rw [coordinate, if_neg empty, reached]
    rfl

variable {net : FogNetwork} {participant : List SavedMsg} {position : Device → Coord}

theorem truncate_near {saved : SavedMsg} {receiver : Device} (reach : InReach position saved receiver) :
    |truncate saved.ctx.x - truncate (position receiver).x| ≤ 1000 ∧
      |truncate saved.ctx.y - truncate (position receiver).y| ≤ 1000 := by
  simp only [InReach, outOfReach, not_or, not_lt] at reach
  constructor <;> rw [abs_sub_comm]
  · exact truncate_close (n := 1000) (by exact_mod_cast reach.1)
  · exact truncate_close (n := 1000) (by exact_mod_cast reach.2)

/-- Truncation hides no pair in range: what passes the sender's test on the coordinates as they are
    passes the coordinator's two tests on their whole parts. -/
theorem nearby_of_within_reach {a b : Nat} {saved : SavedMsg} {receiver : Device}
    (savedAt : participant[a]? = some saved) (receiverAt : (bDevices net)[b]? = some receiver)
    (reach : ¬ outOfReach ⟨saved.ctx.x, saved.ctx.y⟩ (position receiver)) :
    (problem net participant position).nearbyX a b = true ∧
      (problem net participant position).nearbyY a b = true := by
  obtain ⟨xNear, yNear⟩ := truncate_near reach
  exact ⟨(nearbyX_stored savedAt receiverAt).mpr xNear, (nearbyY_stored savedAt receiverAt).mpr yNear⟩

theorem nearby_across_zero :
    (problem (.ofSizes 1 1 0) (stored [⟨(Device.mk .mobileHost 0).getFullName, 9 / 10, 0⟩])
      fun _ => ⟨-9991 / 10, 0⟩).nearbyX 0 0 = true := by
  have receiverAt : (bDevices (.ofSizes 1 1 0))[0]? = some ⟨.fogHost, 0⟩ := by decide
  exact (nearby_of_within_reach rfl receiverAt (by decide +kernel)).1

theorem satisfies_of_inReach {a b : Nat} {saved : SavedMsg} {receiver : Device}
    (savedAt : participant[a]? = some saved) (receiverAt : (bDevices net)[b]? = some receiver)
    (reach : InReach position saved receiver) (different : a ≠ b) :
    (problem net participant position).satisfies a b = true := by
  obtain ⟨xNear, yNear⟩ := truncate_near reach
  exact (satisfies_stored savedAt receiverAt).mpr ⟨xNear, yNear, different⟩

theorem aNames (problem : Problem) (pairs : List (Nat × Nat)) :
    (pairs.map problem.names).map Prod.fst = (pairs.map Prod.fst).map problem.aName := by
  simp [Problem.names, edgeOf]

theorem bNames (problem : Problem) (pairs : List (Nat × Nat)) :
    (pairs.map problem.names).map Prod.snd = (pairs.map Prod.snd).map problem.bName := by
  simp [Problem.names, edgeOf]

section Names

variable {problem : Problem} (aligned : problem.Aligned) (distinct : problem.Distinct)

include aligned distinct

theorem mem_endpoints_aName {pairs : List (Nat × Nat)} (sound : problem.Sound pairs) {a : Nat}
    (aBound : a < problem.aHosts.length) :
    problem.aName a ∈ endpoints (pairs.map problem.names) ↔ a ∈ pairs.map Prod.fst := by
  simp only [mem_endpoints, List.mem_map]
  constructor
  · rintro ⟨_, ⟨pair, member, rfl⟩, isSender | isReceiver⟩
    · have bounds := satisfies_bounds aligned (sound pair member)
      exact ⟨pair, member, (aName_injective distinct aBound bounds.1 isSender).symm⟩
    · have bounds := satisfies_bounds aligned (sound pair member)
      exact absurd isReceiver (aName_ne_bName distinct aBound bounds.2)
  · rintro ⟨pair, member, rfl⟩
    exact ⟨_, ⟨pair, member, rfl⟩, Or.inl rfl⟩

theorem mem_endpoints_bName {pairs : List (Nat × Nat)} (sound : problem.Sound pairs) {b : Nat}
    (bBound : b < problem.bHosts.length) :
    problem.bName b ∈ endpoints (pairs.map problem.names) ↔ b ∈ pairs.map Prod.snd := by
  simp only [mem_endpoints, List.mem_map]
  constructor
  · rintro ⟨_, ⟨pair, member, rfl⟩, isSender | isReceiver⟩
    · have bounds := satisfies_bounds aligned (sound pair member)
      exact absurd isSender.symm (aName_ne_bName distinct bounds.1 bBound)
    · have bounds := satisfies_bounds aligned (sound pair member)
      exact ⟨pair, member, (bName_injective distinct bBound bounds.2 isReceiver).symm⟩
  · rintro ⟨pair, member, rfl⟩
    exact ⟨_, ⟨pair, member, rfl⟩, Or.inr rfl⟩

theorem names_isMatching {pairs : List (Nat × Nat)} (sound : problem.Sound pairs)
    (senders : (pairs.map Prod.fst).Nodup) (receivers : (pairs.map Prod.snd).Nodup) :
    IsMatching (pairs.map problem.names) := by
  have bounds := sound_inRange aligned sound
  have aBounds : ∀ a ∈ pairs.map Prod.fst, a < problem.aHosts.length :=
    List.forall_mem_map.mpr fun pair member => (bounds pair member).1
  have bBounds : ∀ b ∈ pairs.map Prod.snd, b < problem.bHosts.length :=
    List.forall_mem_map.mpr fun pair member => (bounds pair member).2
  refine isMatching_iff.mpr ⟨?_, ?_, ?_⟩
  · rw [aNames]
    exact senders.map_on fun i iMember j jMember =>
      aName_injective distinct (aBounds i iMember) (aBounds j jMember)
  · rw [bNames]
    exact receivers.map_on fun i iMember j jMember =>
      bName_injective distinct (bBounds i iMember) (bBounds j jMember)
  · intro _ isSender _ isReceiver
    obtain ⟨left, inLeft, rfl⟩ := List.mem_map.mp isSender
    obtain ⟨right, inRight, rfl⟩ := List.mem_map.mp isReceiver
    exact aName_ne_bName distinct (bounds left inLeft).1 (bounds right inRight).2

end Names

theorem untouched {problem : Problem} (aligned : problem.Aligned) (distinct : problem.Distinct)
    {index : Nat} (aBound : index < problem.aHosts.length) (bBound : index < problem.bHosts.length)
    {edges : List (List Char × List Char)}
    (elsewhere : ∀ edge ∈ edges, ∃ pair : Nat × Nat, problem.satisfies pair.1 pair.2 = true ∧
      edge = problem.names pair ∧ pair.1 ≠ index ∧ pair.2 ≠ index) :
    problem.aName index ∉ endpoints edges ∧ problem.bName index ∉ endpoints edges := by
  constructor <;> intro touched <;> obtain ⟨edge, member, isEnd⟩ := mem_endpoints.mp touched <;>
    obtain ⟨pair, satisfied, rfl, aApart, bApart⟩ := elsewhere edge member <;>
    obtain ⟨aPair, bPair⟩ := satisfies_bounds aligned satisfied
  · rcases isEnd with same | same
    · exact aApart (aName_injective distinct aBound aPair same).symm
    · exact aName_ne_bName distinct aBound bPair same
  · rcases isEnd with same | same
    · exact aName_ne_bName distinct aPair bBound same.symm
    · exact bApart (bName_injective distinct bBound bPair same).symm

/-- A set of pairs that blocks an index can be listed first, and the index then stays idle. -/
theorem idle_of_blocks {problem : Problem} (aligned : problem.Aligned) (distinct : problem.Distinct)
    {index : Nat} (aBound : index < problem.aHosts.length) (bBound : index < problem.bHosts.length)
    {others : List (Nat × Nat)} (blocks : problem.Blocks index others) :
    ∃ solutions, solutions.Nodup ∧ problem.Enumerated solutions ∧
      (problem.aName index ∉ endpoints (greedy [] (solutions.map problem.names)) ∧
        problem.bName index ∉ endpoints (greedy [] (solutions.map problem.names))) := by
  let rest := (satisfyingTable problem).filter (· ∉ others)
  have restSound : problem.Sound rest := fun pair member =>
    (mem_table aligned).mp (List.mem_filter.mp member).1
  have split : greedy [] ((others ++ rest).map problem.names) = others.map problem.names ++
      greedy (endpoints (others.map problem.names)) (rest.map problem.names) := by
    rw [List.map_append, greedy_append, greedy_keeps
      (names_isMatching aligned distinct blocks.sound blocks.senders blocks.receivers) (by simp),
      List.append_nil]
  refine ⟨others ++ rest, ?_, ?_, ?_⟩
  · refine List.nodup_append.mpr ⟨blocks.senders.of_map, (lexicographic_nodup
      (table_lexicographic problem)).filter _, fun left inOthers right inRest same => ?_⟩
    subst same
    simpa [inOthers] using (List.mem_filter.mp inRest).2
  · intro a b
    simp only [List.mem_append, rest, List.mem_filter, mem_table aligned]
    constructor
    · rintro (member | ⟨satisfied, _⟩)
      · exact blocks.sound (a, b) member
      · exact satisfied
    · intro satisfied
      by_cases member : (a, b) ∈ others
      · exact Or.inl member
      · exact Or.inr ⟨satisfied, by simpa using member⟩
  · rw [split]
    refine untouched aligned distinct aBound bBound fun edge member => ?_
    rcases List.mem_append.mp member with first | later
    · obtain ⟨pair, inOthers, rfl⟩ := List.mem_map.mp first
      exact ⟨pair, blocks.sound pair inOthers, rfl, blocks.avoids pair inOthers⟩
    · obtain ⟨pair, inRest, rfl⟩ := List.mem_map.mp ((greedy_sublist _ _).subset later)
      obtain ⟨aFree, bFree⟩ := greedy_fresh _ _ _ later
      have satisfied := restSound pair inRest
      obtain ⟨aPair, bPair⟩ := satisfies_bounds aligned satisfied
      refine ⟨pair, satisfied, rfl, fun isIndex => bFree ?_, fun isIndex => aFree ?_⟩
      · exact (mem_endpoints_bName aligned distinct blocks.sound bPair).mpr
          (blocks.takesReceivers _ (isIndex ▸ satisfied))
      · exact (mem_endpoints_aName aligned distinct blocks.sound aPair).mpr
          (blocks.takesSenders _ (isIndex ▸ satisfied))

/-- An index that stays idle is blocked, by the pairs that the round writes. -/
theorem blocks_of_idle {problem : Problem} (aligned : problem.Aligned) (distinct : problem.Distinct)
    {index : Nat} (aBound : index < problem.aHosts.length) (bBound : index < problem.bHosts.length)
    {solutions : List (Nat × Nat)} (enumerated : problem.Enumerated solutions)
    (aIdle : problem.aName index ∉ endpoints (greedy [] (solutions.map problem.names)))
    (bIdle : problem.bName index ∉ endpoints (greedy [] (solutions.map problem.names))) :
    ∃ others, problem.Blocks index others := by
  have inRange := sound_inRange aligned (enumerated_sound enumerated)
  have matching := greedy_isMatching [] (names_loopless distinct inRange)
  have maximal := fun pair (offered : pair ∈ solutions) =>
    greedy_maximal [] (List.mem_map_of_mem (f := problem.names) offered)
  obtain ⟨others, drawn, written⟩ := List.sublist_map_iff.mp (greedy_sublist [] (solutions.map problem.names))
  have sound : problem.Sound others := fun pair member =>
    enumerated_sound enumerated pair (drawn.subset member)
  simp only [written, List.not_mem_nil, false_or] at matching maximal aIdle bIdle
  refine ⟨others, sound, ?_, ?_, fun pair member => ⟨?_, ?_⟩, fun b satisfied => ?_, fun a satisfied => ?_⟩
  · exact (aNames problem others ▸ matching.senders_nodup).of_map
  · exact (bNames problem others ▸ matching.receivers_nodup).of_map
  · rintro rfl
    exact aIdle ((mem_endpoints_aName aligned distinct sound aBound).mpr (List.mem_map_of_mem member))
  · rintro rfl
    exact bIdle ((mem_endpoints_bName aligned distinct sound bBound).mpr (List.mem_map_of_mem member))
  · have touched := (maximal _ ((enumerated index b).mpr satisfied)).resolve_left aIdle
    exact (mem_endpoints_bName aligned distinct sound (satisfies_bounds aligned satisfied).2).mp touched
  · have touched := (maximal _ ((enumerated a index).mpr satisfied)).resolve_right bIdle
    exact (mem_endpoints_aName aligned distinct sound (satisfies_bounds aligned satisfied).1).mp touched

theorem index_of_idle {solutions : List (Nat × Nat)} {a b : Nat} {saved : SavedMsg} {receiver : Device}
    (enumerated : (problem net participant position).Enumerated solutions)
    (savedAt : participant[a]? = some saved) (receiverAt : (bDevices net)[b]? = some receiver)
    (reach : InReach position saved receiver)
    (aIdle : (problem net participant position).aName a ∉
      endpoints (greedy [] (solutions.map (problem net participant position).names)))
    (bIdle : (problem net participant position).bName b ∉
      endpoints (greedy [] (solutions.map (problem net participant position).names))) : a = b := by
  by_contra different
  have offered := (enumerated a b).mpr (satisfies_of_inReach savedAt receiverAt reach different)
  have touched := greedy_maximal []
    (List.mem_map_of_mem (f := (problem net participant position).names) offered)
  simp only [List.not_mem_nil, false_or] at touched
  exact touched.elim aIdle bIdle

/-- A round can leave a pair within reach idle exactly when the pair stands at one index of both
    host arrays and other pairs can take every other partner of the two hosts. -/
theorem never_idle_iff {history : List ContextSync} (reported : ∀ ctx ∈ history, net.Reports ctx) :
    NeverIdle net (stored history) position ↔
      ∀ index saved receiver, (stored history)[index]? = some saved →
        (bDevices net)[index]? = some receiver → InReach position saved receiver →
          ¬ ∃ others, (problem net (stored history) position).Blocks index others := by
  have aligned := problem_aligned net (stored history) position
  have distinct : (problem net (stored history) position).Distinct :=
    problem_distinct (registered_stored reported)
  constructor
  · rintro never index saved receiver savedAt receiverAt reach ⟨others, blocks⟩
    obtain ⟨solutions, unrepeated, enumerated, aIdle, bIdle⟩ :=
      idle_of_blocks aligned distinct (stored_bound savedAt) (device_bound receiverAt) blocks
    obtain ⟨outcome, reached, served⟩ := never solutions unrepeated enumerated
    obtain ⟨again, isAgain, plan⟩ := coordinate_eq (sound_inRange aligned (enumerated_sound enumerated))
    cases Except.ok.inj (isAgain.symm.trans reached)
    rw [plan] at served
    obtain ⟨held, immobile⟩ := mem_bDevices.mp (List.mem_of_getElem? receiverAt)
    rcases served saved (List.mem_of_getElem? savedAt) receiver held immobile reach with named | named
    · exact aIdle (aName_stored savedAt ▸ named)
    · exact bIdle (bName_device receiverAt ▸ named)
  · intro unblocked solutions unrepeated enumerated
    obtain ⟨outcome, reached, plan⟩ := coordinate_eq (sound_inRange aligned (enumerated_sound enumerated))
    refine ⟨outcome, reached, fun saved member receiver held immobile reach => ?_⟩
    obtain ⟨a, savedAt⟩ := List.getElem?_of_mem member
    obtain ⟨b, receiverAt⟩ := List.getElem?_of_mem (mem_bDevices.mpr ⟨held, immobile⟩)
    have aIs : (problem net (stored history) position).aName a = saved.ctx.device := aName_stored savedAt
    have bIs : (problem net (stored history) position).bName b = receiver.getFullName :=
      bName_device receiverAt
    rw [plan, ← aIs, ← bIs]
    by_contra idle
    rw [not_or] at idle
    obtain rfl := index_of_idle enumerated savedAt receiverAt reach idle.1 idle.2
    exact unblocked a saved receiver savedAt receiverAt reach (blocks_of_idle aligned distinct
      (stored_bound savedAt) (device_bound receiverAt) enumerated idle.1 idle.2)

theorem never_idle_beside_fog :
    NeverIdle (FogNetwork.ofSizes 1 1 1) (stored [⟨(Device.mk .mobileHost 0).getFullName, 0, 0⟩])
      (fun device => if device.kind = .cloudHost then ⟨5000, 0⟩ else ⟨0, 0⟩) := by
  refine (never_idle_iff ?_).mpr ?_
  · intro ctx member
    rw [List.mem_singleton.mp member]
    exact ⟨⟨.mobileHost, 0⟩, by decide, rfl, rfl⟩
  · intro index saved receiver savedAt receiverAt reach
    cases index with
    | succ index => cases savedAt
    | zero =>
      cases savedAt
      cases receiverAt
      exact absurd reach (not_not.mpr (Or.inl (by norm_num)))

/-- One mobile host and one fog host at the same place stand at index 0 both, and nobody serves them. -/
theorem equal_indices_idle :
    ¬ ∀ (net : FogNetwork) (history : List ContextSync) (position : Device → Coord),
      (∀ ctx ∈ history, net.Reports ctx) → (stored history).length = net.numHosts →
        NeverIdle net (stored history) position := by
  intro always
  have reported : ∀ ctx ∈ [ContextSync.mk (Device.mk .mobileHost 0).getFullName 0 0],
      (FogNetwork.ofSizes 1 1 0).Reports ctx := by
    intro ctx member
    rw [List.mem_singleton.mp member]
    exact ⟨⟨.mobileHost, 0⟩, by decide, rfl, rfl⟩
  have never := always _ _ (fun _ => ⟨0, 0⟩) reported rfl
  have unsatisfiable : (problem (.ofSizes 1 1 0) (stored [⟨(Device.mk .mobileHost 0).getFullName, 0, 0⟩])
      (fun _ => ⟨0, 0⟩)).Enumerated [] := by
    intro a b
    simp only [List.not_mem_nil, false_iff]
    intro satisfied
    obtain ⟨aBound, bBound⟩ := satisfies_bounds (problem_aligned _ _ _) satisfied
    have onlyA : a < 1 := aBound
    have onlyB : b < 1 := bBound
    exact (satisfies_eq_true.mp satisfied).2.2 (by omega)
  obtain ⟨outcome, reached, served⟩ := never [] List.nodup_nil unsatisfiable
  cases reached
  have named := served _ (List.mem_singleton.mpr rfl) ⟨.fogHost, 0⟩ (by decide) (by decide)
    (by norm_num [InReach, outOfReach])
  simp [plannedPairs] at named

end FogNetProof.Rounds
