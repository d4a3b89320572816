import Mathlib.Data.List.Nodup
import Mathlib.Data.Set.Basic

namespace Matching

variable {A B : Type*}

/-- A relation in which every sender has at most one receiver and every receiver at most one sender. -/
structure PartialMatching (A B : Type*) where
  pairs : Set (A × B)
  receiver_unique : ∀ {a : A} {b c : B}, (a, b) ∈ pairs → (a, c) ∈ pairs → b = c
  sender_unique : ∀ {a c : A} {b : B}, (a, b) ∈ pairs → (c, b) ∈ pairs → a = c

namespace PartialMatching

@[ext] theorem ext {left right : PartialMatching A B}
    (same : ∀ a b, (a, b) ∈ left.pairs ↔ (a, b) ∈ right.pairs) : left = right := by
  cases left
  cases right
  congr
  exact Set.ext fun pair => same pair.1 pair.2

/-- Link `a` to `b`, giving up what either of them was linked to before. -/
def assign (matching : PartialMatching A B) (a : A) (b : B) : PartialMatching A B where
  pairs := {pair | pair = (a, b) ∨ (pair ∈ matching.pairs ∧ pair.1 ≠ a ∧ pair.2 ≠ b)}
  receiver_unique := by
    rintro c d e (left | ⟨left, outside, _⟩) (right | ⟨right, other, _⟩)
    · cases left
      cases right
      rfl
    · cases left
      exact absurd rfl other
    · cases right
      exact absurd rfl outside
    · exact matching.receiver_unique left right
  sender_unique := by
    rintro c d e (left | ⟨left, _, outside⟩) (right | ⟨right, _, other⟩)
    · cases left
      cases right
      rfl
    · cases left
      exact absurd rfl other
    · cases right
      exact absurd rfl outside
    · exact matching.sender_unique left right

def release (matching : PartialMatching A B) (a : A) : PartialMatching A B where
  pairs := {pair | pair ∈ matching.pairs ∧ pair.1 ≠ a}
  receiver_unique := fun left right => matching.receiver_unique left.1 right.1
  sender_unique := fun left right => matching.sender_unique left.1 right.1

@[simp] theorem mem_assign {matching : PartialMatching A B} {a c : A} {b d : B} :
    (c, d) ∈ (matching.assign a b).pairs ↔
      (c = a ∧ d = b) ∨ ((c, d) ∈ matching.pairs ∧ c ≠ a ∧ d ≠ b) := by
  simp [assign]

@[simp] theorem mem_release {matching : PartialMatching A B} {a c : A} {d : B} :
    (c, d) ∈ (matching.release a).pairs ↔ (c, d) ∈ matching.pairs ∧ c ≠ a := Iff.rfl

theorem assign_of_mem {matching : PartialMatching A B} {a : A} {b : B}
    (linked : (a, b) ∈ matching.pairs) : matching.assign a b = matching := by
  ext c d
  rw [mem_assign]
  constructor
  · rintro (⟨rfl, rfl⟩ | ⟨kept, _, _⟩)
    · exact linked
    · exact kept
  · intro kept
    by_cases sameSender : c = a
    · subst sameSender
      exact Or.inl ⟨rfl, matching.receiver_unique kept linked⟩
    · refine Or.inr ⟨kept, sameSender, fun sameReceiver => ?_⟩
      subst sameReceiver
      exact sameSender (matching.sender_unique kept linked)

def assignAll (matching : PartialMatching A B) (plan : List (A × B)) : PartialMatching A B :=
  plan.foldl (fun current pair => current.assign pair.1 pair.2) matching

/-- A plan without repeated names overrides exactly the links that touch one of its names. -/
theorem mem_assignAll {plan : List (A × B)} (senders : (plan.map Prod.fst).Nodup)
    (receivers : (plan.map Prod.snd).Nodup) (matching : PartialMatching A B) {a : A} {b : B} :
    (a, b) ∈ (matching.assignAll plan).pairs ↔
      (a, b) ∈ plan ∨
        ((a, b) ∈ matching.pairs ∧ a ∉ plan.map Prod.fst ∧ b ∉ plan.map Prod.snd) := by
  induction plan generalizing matching with
  | nil => simp [assignAll]
  | cons pair plan ih =>
    obtain ⟨sender, receiver⟩ := pair
    simp only [List.map_cons, List.nodup_cons] at senders receivers
    have step : matching.assignAll ((sender, receiver) :: plan) =
        (matching.assign sender receiver).assignAll plan := rfl
    rw [step, ih senders.2 receivers.2, mem_assign]
    simp only [List.mem_cons, List.map_cons, not_or, Prod.mk.injEq]
    constructor
    · rintro (later | ⟨⟨rfl, rfl⟩ | ⟨kept, notSender, notReceiver⟩, outside, other⟩)
      · exact Or.inl (Or.inr later)
      · exact Or.inl (Or.inl ⟨rfl, rfl⟩)
      · exact Or.inr ⟨kept, ⟨notSender, outside⟩, notReceiver, other⟩
    · rintro ((⟨rfl, rfl⟩ | later) | ⟨kept, ⟨notSender, outside⟩, notReceiver, other⟩)
      · exact Or.inr ⟨Or.inl ⟨rfl, rfl⟩, senders.1, receivers.1⟩
      · exact Or.inl later
      · exact Or.inr ⟨Or.inr ⟨kept, notSender, notReceiver⟩, outside, other⟩

theorem assignAll_perm {left right : List (A × B)} (same : left.Perm right)
    (senders : (left.map Prod.fst).Nodup) (receivers : (left.map Prod.snd).Nodup)
    (matching : PartialMatching A B) : matching.assignAll left = matching.assignAll right := by
  ext a b
  rw [mem_assignAll senders receivers,
    mem_assignAll ((same.map _).nodup senders) ((same.map _).nodup receivers),
    same.mem_iff, (same.map Prod.fst).mem_iff, (same.map Prod.snd).mem_iff]

end PartialMatching

end Matching
