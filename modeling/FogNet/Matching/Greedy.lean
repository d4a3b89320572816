import Mathlib.Data.List.Flatten
import Mathlib.Data.List.Nodup
import Mathlib.Data.List.Pairwise
import Mathlib.Data.List.Perm.Subperm

namespace Matching

variable {V : Type*}

def endpoints (edges : List (V × V)) : List V :=
  edges.flatMap fun edge => [edge.1, edge.2]

/-- No vertex is used twice, neither by two edges nor by one. -/
def IsMatching (edges : List (V × V)) : Prop := (endpoints edges).Nodup

@[simp] theorem endpoints_nil : endpoints ([] : List (V × V)) = [] := rfl

@[simp] theorem endpoints_cons (edge : V × V) (edges : List (V × V)) :
    endpoints (edge :: edges) = edge.1 :: edge.2 :: endpoints edges := rfl

theorem mem_endpoints {edges : List (V × V)} {v : V} :
    v ∈ endpoints edges ↔ ∃ edge ∈ edges, v = edge.1 ∨ v = edge.2 := by
  simp [endpoints]

theorem length_endpoints (edges : List (V × V)) : (endpoints edges).length = 2 * edges.length := by
  induction edges with
  | nil => rfl
  | cons edge edges ih => simp only [endpoints_cons, List.length_cons, ih]; omega

theorem IsMatching.sublist {left right : List (V × V)} (matching : IsMatching right)
    (isSublist : left.Sublist right) : IsMatching left :=
  List.Nodup.sublist (isSublist.flatMap _) matching

theorem IsMatching.perm {left right : List (V × V)} (matching : IsMatching left)
    (same : left.Perm right) : IsMatching right :=
  (same.flatMap_right _).nodup matching

theorem IsMatching.edge_unique {edges : List (V × V)} (matching : IsMatching edges)
    {left right : V × V} (leftMember : left ∈ edges) (rightMember : right ∈ edges) {v : V}
    (onLeft : v = left.1 ∨ v = left.2) (onRight : v = right.1 ∨ v = right.2) : left = right := by
  by_contra different
  have apart := (List.nodup_flatMap.mp matching).2
  have symmetric : Std.Symm (Function.onFun List.Disjoint fun edge : V × V => [edge.1, edge.2]) :=
    ⟨fun _ _ => List.disjoint_symm⟩
  have separate := apart.forall leftMember rightMember different
  exact separate (a := v) (by simpa using onLeft) (by simpa using onRight)

theorem IsMatching.ends_differ {edges : List (V × V)} (matching : IsMatching edges)
    {edge : V × V} (member : edge ∈ edges) : edge.1 ≠ edge.2 := by
  have single := (List.nodup_flatMap.mp matching).1 edge member
  simpa using single

theorem endpoints_perm (edges : List (V × V)) :
    (endpoints edges).Perm (edges.map Prod.fst ++ edges.map Prod.snd) := by
  induction edges with
  | nil => exact List.Perm.refl _
  | cons edge edges ih => exact ((ih.cons edge.2).trans List.perm_middle.symm).cons edge.1

theorem isMatching_iff {edges : List (V × V)} :
    IsMatching edges ↔ (edges.map Prod.fst).Nodup ∧ (edges.map Prod.snd).Nodup ∧
      ∀ left ∈ edges, ∀ right ∈ edges, left.1 ≠ right.2 := by
  rw [IsMatching, (endpoints_perm edges).nodup_iff, List.nodup_append]
  refine and_congr Iff.rfl (and_congr Iff.rfl ⟨fun apart left inLeft right inRight => ?_, ?_⟩)
  · exact apart _ (List.mem_map_of_mem inLeft) _ (List.mem_map_of_mem inRight)
  · rintro apart _ isSender _ isReceiver
    obtain ⟨left, inLeft, rfl⟩ := List.mem_map.mp isSender
    obtain ⟨right, inRight, rfl⟩ := List.mem_map.mp isReceiver
    exact apart left inLeft right inRight

theorem IsMatching.senders_nodup {edges : List (V × V)} (matching : IsMatching edges) :
    (edges.map Prod.fst).Nodup := (isMatching_iff.mp matching).1

theorem IsMatching.receivers_nodup {edges : List (V × V)} (matching : IsMatching edges) :
    (edges.map Prod.snd).Nodup := (isMatching_iff.mp matching).2.1

variable [DecidableEq V]

def coveredEnd (cover : List V) (edge : V × V) : V := if edge.1 ∈ cover then edge.1 else edge.2

theorem coveredEnd_sublist (cover : List V) (edges : List (V × V)) :
    (edges.map (coveredEnd cover)).Sublist (endpoints edges) := by
  induction edges with
  | nil => simp
  | cons edge edges ih =>
    simp only [List.map_cons, endpoints_cons, coveredEnd]
    split
    · exact (ih.cons _).cons_cons _
    · exact (ih.cons_cons _).cons _

/-- A matching has at most as many edges as any list of vertices that meets all of them. -/
theorem IsMatching.length_le_cover {edges : List (V × V)} (matching : IsMatching edges)
    {cover : List V} (covers : ∀ edge ∈ edges, edge.1 ∈ cover ∨ edge.2 ∈ cover) :
    edges.length ≤ cover.length := by
  have distinct : (edges.map (coveredEnd cover)).Nodup :=
    List.Nodup.sublist (coveredEnd_sublist cover edges) matching
  have inside : edges.map (coveredEnd cover) ⊆ cover := by
    intro v member
    obtain ⟨edge, edgeMember, rfl⟩ := List.mem_map.mp member
    unfold coveredEnd
    split
    · assumption
    · exact (covers edge edgeMember).resolve_left ‹_›
  simpa using (distinct.subperm inside).length_le

/-- Take the edges in order and keep those both ends of which are still unused. -/
def greedy : List V → List (V × V) → List (V × V)
  | _, [] => []
  | used, edge :: edges =>
    if edge.1 ∉ used ∧ edge.2 ∉ used then edge :: greedy (edge.2 :: edge.1 :: used) edges
    else greedy used edges

theorem greedy_congr {left right : List V} (same : ∀ v, v ∈ left ↔ v ∈ right)
    (edges : List (V × V)) : greedy left edges = greedy right edges := by
  induction edges generalizing left right with
  | nil => rfl
  | cons edge edges ih =>
    have next : ∀ v, v ∈ edge.2 :: edge.1 :: left ↔ v ∈ edge.2 :: edge.1 :: right := by
      intro v
      simp only [List.mem_cons, same]
    simp only [greedy, same, ih same, ih next]

theorem greedy_sublist (used : List V) (edges : List (V × V)) : (greedy used edges).Sublist edges := by
  induction edges generalizing used with
  | nil => exact List.Sublist.refl _
  | cons edge edges ih =>
    unfold greedy
    split
    · exact (ih _).cons_cons _
    · exact (ih _).cons _

theorem greedy_fresh (used : List V) (edges : List (V × V)) :
    ∀ edge ∈ greedy used edges, edge.1 ∉ used ∧ edge.2 ∉ used := by
  induction edges generalizing used with
  | nil => simp [greedy]
  | cons edge edges ih =>
    unfold greedy
    split
    · rename_i free
      intro other member
      rcases List.mem_cons.mp member with rfl | later
      · exact free
      · have outside := ih _ other later
        simp only [List.mem_cons, not_or] at outside
        exact ⟨outside.1.2.2, outside.2.2.2⟩
    · exact ih used

theorem greedy_isMatching (used : List V) {edges : List (V × V)}
    (loopless : ∀ edge ∈ edges, edge.1 ≠ edge.2) : IsMatching (greedy used edges) := by
  induction edges generalizing used with
  | nil => exact List.nodup_nil
  | cons edge edges ih =>
    have rest := fun used => ih used fun other member => loopless other (List.mem_cons_of_mem _ member)
    unfold greedy
    split
    · have fresh := greedy_fresh (edge.2 :: edge.1 :: used) edges
      have clear : ∀ v, v = edge.1 ∨ v = edge.2 →
          v ∉ endpoints (greedy (edge.2 :: edge.1 :: used) edges) := by
        intro v isEnd member
        obtain ⟨other, kept, onOther⟩ := mem_endpoints.mp member
        have outside := fresh other kept
        simp only [List.mem_cons, not_or] at outside
        rcases isEnd with rfl | rfl <;> rcases onOther with same | same <;> simp_all
      simp only [IsMatching, endpoints_cons, List.nodup_cons, List.mem_cons, not_or]
      exact ⟨⟨loopless edge (by simp), clear _ (Or.inl rfl)⟩, clear _ (Or.inr rfl), rest _⟩
    · exact rest used

theorem greedy_maximal (used : List V) {edges : List (V × V)} {edge : V × V}
    (member : edge ∈ edges) :
    (edge.1 ∈ used ∨ edge.1 ∈ endpoints (greedy used edges)) ∨
      (edge.2 ∈ used ∨ edge.2 ∈ endpoints (greedy used edges)) := by
  induction edges generalizing used with
  | nil => simp at member
  | cons head edges ih =>
    unfold greedy
    split
    · rcases List.mem_cons.mp member with rfl | later
      · simp
      · have known := ih (head.2 :: head.1 :: used) later
        simp only [List.mem_cons, endpoints_cons] at known ⊢
        tauto
    · rcases List.mem_cons.mp member with rfl | later
      · tauto
      · exact ih used later

theorem greedy_append (used : List V) (left right : List (V × V)) :
    greedy used (left ++ right) =
      greedy used left ++ greedy (endpoints (greedy used left) ++ used) right := by
  induction left generalizing used with
  | nil => rfl
  | cons edge left ih =>
    simp only [List.cons_append, greedy]
    split
    · rw [ih, List.cons_append, endpoints_cons]
      congr 2
      apply greedy_congr
      intro v
      simp only [List.mem_append, List.mem_cons]
      tauto
    · exact ih used

theorem greedy_skip {used : List V} {left : List (V × V)} (right : List (V × V))
    (blocked : ∀ edge ∈ left, edge.1 ∈ used ∨ edge.2 ∈ used) :
    greedy used (left ++ right) = greedy used right := by
  induction left with
  | nil => rfl
  | cons edge left ih =>
    have here : ¬ (edge.1 ∉ used ∧ edge.2 ∉ used) := by
      have := blocked edge (by simp)
      tauto
    rw [List.cons_append, greedy, if_neg here]
    exact ih fun other member => blocked other (List.mem_cons_of_mem _ member)

theorem greedy_keeps {used : List V} {edges : List (V × V)} (matching : IsMatching edges)
    (free : ∀ v ∈ endpoints edges, v ∉ used) : greedy used edges = edges := by
  induction edges generalizing used with
  | nil => rfl
  | cons edge edges ih =>
    simp only [IsMatching, endpoints_cons, List.nodup_cons, List.mem_cons, not_or] at matching
    obtain ⟨⟨_, firstFresh⟩, secondFresh, restMatching⟩ := matching
    have here : edge.1 ∉ used ∧ edge.2 ∉ used := ⟨free _ (by simp), free _ (by simp)⟩
    rw [greedy, if_pos here, ih restMatching]
    intro v member
    simp only [List.mem_cons, not_or]
    exact ⟨fun same => secondFresh (same ▸ member), fun same => firstFresh (same ▸ member),
      free v (by simp [member])⟩

/-- Greedy selection reaches half of every matching drawn from the same edges. -/
theorem greedy_half_optimal {edges other : List (V × V)} (drawn : ∀ edge ∈ other, edge ∈ edges)
    (matching : IsMatching other) : other.length ≤ 2 * (greedy [] edges).length := by
  rw [← length_endpoints]
  apply matching.length_le_cover
  intro edge member
  simpa using greedy_maximal [] (drawn edge member)

theorem greedy_nonempty {edges : List (V × V)} (offered : edges ≠ []) :
    1 ≤ (greedy [] edges).length := by
  cases edges with
  | nil => exact absurd rfl offered
  | cons edge edges => simp [greedy]

theorem greedy_take {edges : List (V × V)} (distinct : edges.Nodup) (cut : Nat) :
    greedy [] (edges.take cut) <+: greedy [] edges ∧
      ∀ edge, edge ∈ greedy [] (edges.take cut) ↔
        edge ∈ greedy [] edges ∧ edge ∈ edges.take cut := by
  have split := greedy_append [] (edges.take cut) (edges.drop cut)
  rw [List.take_append_drop] at split
  have apart : List.Disjoint (edges.take cut) (edges.drop cut) :=
    List.disjoint_take_drop distinct (Nat.le_refl _)
  refine ⟨⟨_, split.symm⟩, fun edge => ⟨fun kept => ?_, ?_⟩⟩
  · rw [split]
    exact ⟨List.mem_append_left _ kept, (greedy_sublist _ _).subset kept⟩
  · rintro ⟨kept, early⟩
    rw [split] at kept
    rcases List.mem_append.mp kept with here | late
    · exact here
    · exact absurd ((greedy_sublist _ _).subset late) (apart early)

end Matching
