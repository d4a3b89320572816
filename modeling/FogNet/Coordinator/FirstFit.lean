import FogNet.Coordinator.Selection

namespace FogNetModel

open Matching

/-- The order in which first-unbound, minimum-value search visits the assignments of `[a, b]`. -/
def Lexicographic (left right : Nat × Nat) : Prop :=
  left.1 < right.1 ∨ (left.1 = right.1 ∧ left.2 < right.2)

/-- Scan the senders upward and give each the smallest satisfying receiver index still free. -/
def Problem.directPlan (problem : Problem) : List (Nat × Nat) :=
  firstFit problem.satisfies (List.range problem.bHosts.length) [] (List.range problem.aHosts.length)

end FogNetModel

namespace FogNetProof.Rounds

open FogNetModel FogNetModel.CentralizedCoordinator Matching FogNetProof.Plans

def satisfyingTable (problem : Problem) : List (Nat × Nat) :=
  table problem.satisfies (List.range problem.bHosts.length) (List.range problem.aHosts.length)

theorem row_lexicographic (admits : Nat → Nat → Bool) (size sender : Nat) :
    (row admits (List.range size) sender).Pairwise Lexicographic := by
  rw [row, List.pairwise_map]
  exact (List.pairwise_lt_range.filter _).imp fun below => Or.inr ⟨rfl, below⟩

theorem table_lexicographic (problem : Problem) :
    (satisfyingTable problem).Pairwise Lexicographic := by
  rw [satisfyingTable, table, List.pairwise_flatMap]
  refine ⟨fun sender _ => row_lexicographic _ _ _, List.pairwise_lt_range.imp fun below => ?_⟩
  intro left inLeft right inRight
  left
  rw [(mem_row.mp inLeft).1, (mem_row.mp inRight).1]
  exact below

theorem mem_table {problem : Problem} (aligned : problem.Aligned) {a b : Nat} :
    (a, b) ∈ satisfyingTable problem ↔ problem.satisfies a b = true := by
  simp only [satisfyingTable, table, List.mem_flatMap, List.mem_range, mem_row]
  constructor
  · rintro ⟨sender, _, rfl, _, satisfied⟩
    exact satisfied
  · intro satisfied
    obtain ⟨aBound, bBound⟩ := satisfies_bounds aligned satisfied
    exact ⟨a, aBound, rfl, bBound, satisfied⟩

theorem lexicographic_nodup {pairs : List (Nat × Nat)} (ordered : pairs.Pairwise Lexicographic) :
    pairs.Nodup := by
  refine ordered.imp fun before same => ?_
  subst same
  rcases before with below | ⟨_, below⟩ <;> exact Nat.lt_irrefl _ below

theorem enumeration_eq_table {problem : Problem} (aligned : problem.Aligned)
    {solutions : List (Nat × Nat)} (enumerated : problem.Enumerated solutions)
    (ordered : solutions.Pairwise Lexicographic) : solutions = satisfyingTable problem := by
  have same : solutions.Perm (satisfyingTable problem) := by
    refine (List.perm_ext_iff_of_nodup (lexicographic_nodup ordered)
      (lexicographic_nodup (table_lexicographic problem))).mpr fun pair => ?_
    rw [enumerated pair.1 pair.2, mem_table aligned]
  refine List.Perm.eq_of_pairwise ?_ ordered (table_lexicographic problem) same
  rintro ⟨a, b⟩ ⟨c, d⟩ _ _ forward backward
  simp only [Lexicographic, Prod.mk.injEq] at forward backward ⊢
  omega

theorem greedy_eq_directPlan {problem : Problem} (aligned : problem.Aligned)
    (distinct : problem.Distinct) {solutions : List (Nat × Nat)}
    (enumerated : problem.Enumerated solutions) (ordered : solutions.Pairwise Lexicographic) :
    greedy [] (solutions.map problem.names) = problem.directPlan.map problem.names := by
  rw [enumeration_eq_table aligned enumerated ordered]
  apply greedy_table
  · refine (List.nodup_map_iff_inj_on List.nodup_range).mpr ?_
    intro i iMember j jMember same
    exact aName_injective distinct (List.mem_range.mp iMember) (List.mem_range.mp jMember) same
  · intro i iMember j jMember same
    exact bName_injective distinct (List.mem_range.mp iMember) (List.mem_range.mp jMember) same
  · intro i iMember j jMember
    exact aName_ne_bName distinct (List.mem_range.mp iMember) (List.mem_range.mp jMember)
  · simp
  · simp

theorem names_injective {problem : Problem} (distinct : problem.Distinct) {left right : Nat × Nat}
    (leftA : left.1 < problem.aHosts.length) (leftB : left.2 < problem.bHosts.length)
    (rightA : right.1 < problem.aHosts.length) (rightB : right.2 < problem.bHosts.length)
    (same : problem.names left = problem.names right) : left = right :=
  Prod.ext (aName_injective distinct leftA rightA (congrArg Prod.fst same))
    (bName_injective distinct leftB rightB (congrArg Prod.snd same))

theorem encode_prefix {left right : List (List Char × List Char)} (isPrefix : left <+: right) :
    encode left <+: encode right := by
  obtain ⟨rest, rfl⟩ := isPrefix
  exact ⟨rest.flatMap entry, (encode_append left rest).symm⟩

/-- The plan of the full list is first fit, and a cut list only shortens it, as a text and as pairs. -/
theorem first_fit_and_cut {problem : Problem} (aligned : problem.Aligned)
    (distinct : problem.Distinct) {solutions : List (Nat × Nat)}
    (enumerated : problem.Enumerated solutions) (ordered : solutions.Pairwise Lexicographic) :
    ∃ full, select problem solutions = .ok full ∧
      full.plan = problem.directPlan.map problem.names ∧
      full.coordinationResultsStr = encode full.plan ∧
      ∀ cut, ∃ shortened, select problem (solutions.take cut) = .ok shortened ∧
        shortened.coordinationResultsStr = encode shortened.plan ∧
        shortened.coordinationResultsStr <+: full.coordinationResultsStr ∧
        shortened.plan <+: full.plan ∧
        ∀ edge, edge ∈ shortened.plan ↔
          edge ∈ full.plan ∧ ∃ position < cut, (solutions.map problem.names)[position]? = some edge := by
  have inRange := sound_inRange aligned (enumerated_sound enumerated)
  obtain ⟨full, reached, plan, text, _⟩ := select_eq inRange
  refine ⟨full, reached, plan.trans (greedy_eq_directPlan aligned distinct enumerated ordered), text, ?_⟩
  intro cut
  have cutInRange : problem.InRange (solutions.take cut) := fun pair member =>
    inRange pair (List.mem_of_mem_take member)
  obtain ⟨shortened, cutReached, cutPlan, cutText, _⟩ := select_eq cutInRange
  have edgesDistinct : (solutions.map problem.names).Nodup := by
    refine (List.nodup_map_iff_inj_on (lexicographic_nodup ordered)).mpr ?_
    intro left leftMember right rightMember same
    exact names_injective distinct (inRange left leftMember).1 (inRange left leftMember).2
      (inRange right rightMember).1 (inRange right rightMember).2 same
  obtain ⟨isPrefix, kept⟩ := greedy_take edgesDistinct cut
  rw [List.map_take] at cutPlan
  rw [← cutPlan, ← plan] at isPrefix kept
  refine ⟨shortened, cutReached, cutText, ?_, isPrefix, fun edge => ?_⟩
  · rw [cutText, text]
    exact encode_prefix isPrefix
  · rw [kept, List.mem_take_iff_getElem]
    constructor
    · rintro ⟨chosen, position, bound, read⟩
      exact ⟨chosen, position, by omega, by rw [← read]; exact List.getElem?_eq_getElem _⟩
    · rintro ⟨chosen, position, early, read⟩
      obtain ⟨bound, value⟩ := List.getElem?_eq_some_iff.mp read
      exact ⟨chosen, position, by omega, value⟩

theorem twoByTwo_aligned : twoByTwo.Aligned := by constructor <;> rfl

theorem twoByTwo_table : satisfyingTable twoByTwo = [(0, 1), (1, 0)] := by decide

theorem twoByTwo_enumerated : twoByTwo.Enumerated [(0, 1), (1, 0)] := fun _ _ =>
  twoByTwo_table ▸ mem_table twoByTwo_aligned

theorem twoByTwo_ordered : [(0, 1), (1, 0)].Pairwise Lexicographic :=
  twoByTwo_table ▸ table_lexicographic twoByTwo

theorem first_fit_of_two :
    ∃ full shortened, select twoByTwo [(0, 1), (1, 0)] = .ok full ∧
      full.coordinationResultsStr = encode [(['a'], ['d']), (['b'], ['c'])] ∧
      select twoByTwo [(0, 1)] = .ok shortened ∧
      shortened.coordinationResultsStr <+: full.coordinationResultsStr := by
  obtain ⟨full, reached, plan, text, cuts⟩ :=
    first_fit_and_cut twoByTwo_aligned twoByTwo_distinct twoByTwo_enumerated twoByTwo_ordered
  obtain ⟨shortened, cutReached, _, isPrefix, _⟩ := cuts 1
  have isPlan : full.plan = [(['a'], ['d']), (['b'], ['c'])] := plan.trans (by decide)
  exact ⟨full, shortened, reached, isPlan ▸ text, cutReached, isPrefix⟩

end FogNetProof.Rounds
