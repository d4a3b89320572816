import FogNet.Matching.FirstFit
import Mathlib.Data.List.Find
import Mathlib.Data.List.Induction

namespace Matching

section Choices

variable {E : Type*}

/-- A choice from candidates of which earlier ones have priority: no two chosen ones conflict, and a
    candidate is left out only for a conflict with a chosen one that comes before it. -/
structure Stable (conflict : E → E → Prop) (candidates : List E) (chosen : E → Prop) : Prop where
  drawn : ∀ e, chosen e → e ∈ candidates
  apart : ∀ left right, chosen left → chosen right → conflict left right → left = right
  blocked : ∀ earlier e later, candidates = earlier ++ e :: later → ¬ chosen e →
    ∃ kept ∈ earlier, chosen kept ∧ conflict kept e

variable {conflict : E → E → Prop} {candidates : List E} {left right : E → Prop}

/-- The induction is on the candidates seen so far: a stable choice is forced from the front. -/
theorem Stable.agree (isLeft : Stable conflict candidates left) (isRight : Stable conflict candidates right)
    {seen rest : List E} (split : candidates = seen ++ rest) : ∀ e ∈ seen, left e ↔ right e := by
  induction seen using List.reverseRecOn generalizing rest with
  | nil => simp
  | append_singleton seen last ih =>
    have split' : candidates = seen ++ last :: rest := by simpa using split
    have known := ih split'
    intro e member
    rcases List.mem_append.mp member with old | new
    · exact known e old
    · obtain rfl := List.mem_singleton.mp new
      constructor
      · intro chosen
        by_contra leftOut
        obtain ⟨kept, earlier, isKept, conflicts⟩ := isRight.blocked seen e rest split' leftOut
        have same := isLeft.apart kept e ((known kept earlier).mpr isKept) chosen conflicts
        exact leftOut (same ▸ isKept)
      · intro chosen
        by_contra leftOut
        obtain ⟨kept, earlier, isKept, conflicts⟩ := isLeft.blocked seen e rest split' leftOut
        have same := isRight.apart kept e ((known kept earlier).mp isKept) chosen conflicts
        exact leftOut (same ▸ isKept)

/-- There is at most one stable choice. -/
theorem Stable.unique (isLeft : Stable conflict candidates left) (isRight : Stable conflict candidates right)
    (e : E) : left e ↔ right e := by
  have known := isLeft.agree isRight (List.append_nil candidates).symm
  constructor
  · intro chosen
    exact (known e (isLeft.drawn e chosen)).mp chosen
  · intro chosen
    exact (known e (isRight.drawn e chosen)).mpr chosen

end Choices

section Greedy

variable {V : Type*} [DecidableEq V]

def Touch (left right : V × V) : Prop :=
  ∃ v, (v = left.1 ∨ v = left.2) ∧ (v = right.1 ∨ v = right.2)

/-- Greedy selection is the stable choice. -/
theorem greedy_stable {edges : List (V × V)} (loopless : ∀ edge ∈ edges, edge.1 ≠ edge.2) :
    Stable Touch edges (· ∈ greedy [] edges) where
  drawn := fun _ kept => (greedy_sublist [] edges).subset kept
  apart := by
    rintro left right keptLeft keptRight ⟨v, onLeft, onRight⟩
    exact (greedy_isMatching [] loopless).edge_unique keptLeft keptRight onLeft onRight
  blocked := by
    rintro earlier edge later rfl leftOut
    rw [greedy_append, List.append_nil, List.mem_append, not_or] at leftOut
    have used : edge.1 ∈ endpoints (greedy [] earlier) ∨ edge.2 ∈ endpoints (greedy [] earlier) := by
      by_contra free
      rw [not_or] at free
      refine leftOut.2 ?_
      rw [greedy, if_pos free]
      exact List.mem_cons_self
    have shared : ∃ v ∈ endpoints (greedy [] earlier), v = edge.1 ∨ v = edge.2 := by
      rcases used with first | second
      · exact ⟨edge.1, first, Or.inl rfl⟩
      · exact ⟨edge.2, second, Or.inr rfl⟩
    obtain ⟨v, isEnd, onEdge⟩ := shared
    obtain ⟨kept, member, onKept⟩ := mem_endpoints.mp isEnd
    refine ⟨kept, (greedy_sublist [] earlier).subset member, ?_, v, onKept, onEdge⟩
    rw [greedy_append]
    exact List.mem_append_left _ member

end Greedy

section FirstFit

variable {A B : Type*} [DecidableEq B] {admits : A → B → Bool} {receivers : List B}

theorem mem_firstFit {taken : List B} {senders : List A} {pair : A × B}
    (chosen : pair ∈ firstFit admits receivers taken senders) :
    pair.1 ∈ senders ∧ pair.2 ∈ receivers ∧ admits pair.1 pair.2 = true ∧ pair.2 ∉ taken := by
  induction senders generalizing taken with
  | nil => simp [firstFit] at chosen
  | cons sender senders ih =>
    rw [firstFit] at chosen
    split at chosen
    · rename_i receiver found
      rcases List.mem_cons.mp chosen with rfl | later
      · have fits := List.find?_some found
        simp only [Bool.and_eq_true, decide_eq_true_eq] at fits
        exact ⟨List.mem_cons_self, List.mem_of_find?_eq_some found, fits⟩
      · obtain ⟨isSender, isReceiver, admitted, free⟩ := ih later
        exact ⟨List.mem_cons_of_mem _ isSender, isReceiver, admitted, fun old =>
          free (List.mem_cons_of_mem _ old)⟩
    · obtain ⟨isSender, isReceiver, admitted, free⟩ := ih chosen
      exact ⟨List.mem_cons_of_mem _ isSender, isReceiver, admitted, free⟩

theorem firstFit_senders (taken : List B) (senders : List A) :
    ((firstFit admits receivers taken senders).map Prod.fst).Sublist senders := by
  induction senders generalizing taken with
  | nil => exact List.Sublist.refl _
  | cons sender senders ih =>
    rw [firstFit]
    split
    · exact (ih _).cons_cons _
    · exact (ih _).cons _

theorem firstFit_receivers (taken : List B) (senders : List A) :
    ((firstFit admits receivers taken senders).map Prod.snd).Nodup := by
  induction senders generalizing taken with
  | nil => exact List.nodup_nil
  | cons sender senders ih =>
    rw [firstFit]
    split
    · refine List.nodup_cons.mpr ⟨fun again => ?_, ih _⟩
      obtain ⟨pair, chosen, same⟩ := List.mem_map.mp again
      exact (mem_firstFit chosen).2.2.2 (same ▸ List.mem_cons_self)
    · exact ih _

theorem firstFit_append (taken : List B) (left right : List A) :
    firstFit admits receivers taken (left ++ right) = firstFit admits receivers taken left ++
      firstFit admits receivers
        (((firstFit admits receivers taken left).map Prod.snd).reverse ++ taken) right := by
  induction left generalizing taken with
  | nil => rfl
  | cons sender left ih =>
    rw [List.cons_append, firstFit, firstFit]
    split
    · rw [ih, List.cons_append, List.map_cons, List.reverse_cons, List.append_assoc,
        List.singleton_append]
    · exact ih taken

theorem firstFit_congr {other : A → B → Bool} {senders : List A}
    (same : ∀ a ∈ senders, ∀ b ∈ receivers, admits a b = other a b) (taken : List B) :
    firstFit admits receivers taken senders = firstFit other receivers taken senders := by
  induction senders generalizing taken with
  | nil => rfl
  | cons sender senders ih =>
    have rest := ih fun a member => same a (List.mem_cons_of_mem _ member)
    have search : receivers.find? (fun b => admits sender b && b ∉ taken) =
        receivers.find? fun b => other sender b && b ∉ taken := by
      apply List.find?_congr
      intro b member
      rw [same sender List.mem_cons_self b member]
    rw [firstFit, firstFit, search]
    split
    · rw [rest]
    · exact rest taken

/-- A pair that first fit leaves out lost its receiver to an earlier sender, or its sender found a
    receiver before. -/
theorem firstFit_settled {before : B → B → Prop} {ahead : A → A → Prop} {senders : List A}
    (receiverOrder : receivers.Pairwise before) (senderOrder : senders.Pairwise ahead) (taken : List B)
    {a : A} {b : B} (isSender : a ∈ senders) (isReceiver : b ∈ receivers) (admitted : admits a b = true) :
    b ∈ taken ∨ (a, b) ∈ firstFit admits receivers taken senders ∨
      (∃ better, before better b ∧ (a, better) ∈ firstFit admits receivers taken senders) ∨
      ∃ better, ahead better a ∧ (better, b) ∈ firstFit admits receivers taken senders := by
  induction senders generalizing taken with
  | nil => simp at isSender
  | cons sender senders ih =>
    obtain ⟨first, rest⟩ := List.pairwise_cons.mp senderOrder
    rw [firstFit]
    cases found : receivers.find? (fun b => admits sender b && b ∉ taken) with
    | none =>
      rcases List.mem_cons.mp isSender with rfl | later
      · have miss := List.find?_eq_none.mp found b isReceiver
        simp only [admitted, Bool.true_and, decide_eq_true_eq, not_not] at miss
        exact Or.inl miss
      · exact ih rest taken later
    | some receiver =>
      dsimp only
      by_cases old : b ∈ taken
      · exact Or.inl old
      · by_cases same : b = receiver
        · subst same
          rcases List.mem_cons.mp isSender with rfl | later
          · exact Or.inr (Or.inl List.mem_cons_self)
          · exact Or.inr (Or.inr (Or.inr ⟨sender, first a later, List.mem_cons_self⟩))
        · rcases List.mem_cons.mp isSender with rfl | later
          · -- the search stops at the first receiver that fits, and `b` fits
            obtain ⟨_, front, back, rfl, passed⟩ := List.find?_eq_some_iff_append.mp found
            have behind : b ∈ back := by
              rcases List.mem_append.mp isReceiver with early | late
              · have miss := passed b early
                simp [admitted, old] at miss
              · exact (List.mem_cons.mp late).resolve_left same
            have earlier := (List.pairwise_cons.mp (List.pairwise_append.mp receiverOrder).2.1).1 b behind
            exact Or.inr (Or.inr (Or.inl ⟨receiver, earlier, List.mem_cons_self⟩))
          · rcases ih rest (receiver :: taken) later with isTaken | chosen | better | better
            · exact absurd isTaken (by simp [same, old])
            · exact Or.inr (Or.inl (List.mem_cons_of_mem _ chosen))
            · obtain ⟨other, earlier, chosen⟩ := better
              exact Or.inr (Or.inr (Or.inl ⟨other, earlier, List.mem_cons_of_mem _ chosen⟩))
            · obtain ⟨other, earlier, chosen⟩ := better
              exact Or.inr (Or.inr (Or.inr ⟨other, earlier, List.mem_cons_of_mem _ chosen⟩))

end FirstFit

end Matching
