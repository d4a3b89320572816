import FogNet.Matching.Assign
import Mathlib.Data.List.Induction

namespace Matching

variable {A B : Type*}

/-- What happens to a matching as a whole: a plan overrides the links of its names, or a sender gives
    its link up. -/
inductive Update (A B : Type*) where
  | adopt (plan : List (A × B))
  | release (sender : A)

namespace Update

def Clean : Update A B → Prop
  | adopt plan => (plan.map Prod.fst).Nodup ∧ (plan.map Prod.snd).Nodup
  | release _ => True

/-- The update leaves a link between the two alone. -/
def Spares (a : A) (b : B) : Update A B → Prop
  | adopt plan => a ∉ plan.map Prod.fst ∧ b ∉ plan.map Prod.snd
  | release sender => a ≠ sender

end Update

namespace PartialMatching

def empty : PartialMatching A B := ⟨∅, fun member => member.elim, fun member => member.elim⟩

def update (matching : PartialMatching A B) : Update A B → PartialMatching A B
  | .adopt plan => matching.assignAll plan
  | .release sender => matching.release sender

def replay (updates : List (Update A B)) : PartialMatching A B := updates.foldl update empty

theorem replay_snoc (updates : List (Update A B)) (last : Update A B) :
    replay (updates ++ [last]) = (replay updates).update last := by
  simp [replay]

theorem mem_update {matching : PartialMatching A B} {last : Update A B} (clean : last.Clean) {a : A}
    {b : B} : (a, b) ∈ (matching.update last).pairs ↔
      (∃ plan, last = .adopt plan ∧ (a, b) ∈ plan) ∨ ((a, b) ∈ matching.pairs ∧ last.Spares a b) := by
  cases last with
  | adopt plan =>
    rw [update, mem_assignAll clean.1 clean.2]
    simp [Update.Spares]
  | release sender => simp [update, Update.Spares]

/-- A link stands after a history of updates when some plan gave it and nothing after that plan has
    touched its sender or its receiver. -/
theorem mem_replay {updates : List (Update A B)} (clean : ∀ update ∈ updates, update.Clean) {a : A}
    {b : B} : (a, b) ∈ (replay updates).pairs ↔
      ∃ earlier plan later, updates = earlier ++ .adopt plan :: later ∧ (a, b) ∈ plan ∧
        ∀ update ∈ later, update.Spares a b := by
  induction updates using List.reverseRecOn with
  | nil => simp [replay, empty]
  | append_singleton updates last ih =>
    have known := ih fun update member => clean update (List.mem_append_left _ member)
    rw [replay_snoc, mem_update (clean last (by simp)), known]
    constructor
    · rintro (⟨plan, rfl, planned⟩ | ⟨⟨earlier, plan, later, rfl, planned, spared⟩, lastSpares⟩)
      · exact ⟨updates, plan, [], rfl, planned, by simp⟩
      · refine ⟨earlier, plan, later ++ [last], by simp, planned, fun update member => ?_⟩
        rcases List.mem_append.mp member with before | here
        · exact spared update before
        · exact List.mem_singleton.mp here ▸ lastSpares
    · rintro ⟨earlier, plan, later, whole, planned, spared⟩
      cases later using List.reverseRecOn with
      | nil =>
        obtain ⟨_, same⟩ := List.append_inj' whole rfl
        exact Or.inl ⟨plan, List.head_eq_of_cons_eq same, planned⟩
      | append_singleton later final =>
        rw [← List.cons_append, ← List.append_assoc] at whole
        obtain ⟨rfl, same⟩ := List.append_inj' whole rfl
        obtain rfl := List.head_eq_of_cons_eq same
        exact Or.inr ⟨⟨earlier, plan, later, rfl, planned, fun update member =>
          spared update (List.mem_append_left _ member)⟩, spared last (by simp)⟩

section Plans

variable {plan : List (A × B)} (senders : (plan.map Prod.fst).Nodup)
  (receivers : (plan.map Prod.snd).Nodup) (matching : PartialMatching A B)

include senders receivers

theorem assignAll_release_of_mem {a : A} (planned : a ∈ plan.map Prod.fst) :
    (matching.release a).assignAll plan = matching.assignAll plan := by
  ext c d
  rw [mem_assignAll senders receivers, mem_assignAll senders receivers, mem_release]
  have other : c ∉ plan.map Prod.fst → c ≠ a := fun outside same => outside (same ▸ planned)
  tauto

theorem assignAll_release {a : A} (unplanned : a ∉ plan.map Prod.fst) :
    (matching.release a).assignAll plan = (matching.assignAll plan).release a := by
  ext c d
  rw [mem_release, mem_assignAll senders receivers, mem_assignAll senders receivers, mem_release]
  have other : (c, d) ∈ plan → c ≠ a := fun planned same =>
    unplanned (same ▸ List.mem_map_of_mem (f := Prod.fst) planned)
  tauto

/-- A pair of a plan may be assigned ahead of the others. -/
theorem assignAll_assign {rest : List (A × B)} (restSenders : (rest.map Prod.fst).Nodup)
    (restReceivers : (rest.map Prod.snd).Nodup) {a : A} {b : B}
    (same : ∀ pair, pair ∈ plan ↔ pair = (a, b) ∨ pair ∈ rest) :
    (matching.assign a b).assignAll rest = matching.assignAll plan := by
  have planned : (a, b) ∈ plan := (same _).mpr (Or.inl rfl)
  have sender : ∀ c, c ∈ plan.map Prod.fst ↔ c = a ∨ c ∈ rest.map Prod.fst := by
    simp [same, or_and_right, exists_or, eq_comm]
  have receiver : ∀ d, d ∈ plan.map Prod.snd ↔ d = b ∨ d ∈ rest.map Prod.snd := by
    simp [same, or_and_right, exists_or, eq_comm]
  have first : (a, b) ∈ rest ∨ (a ∉ rest.map Prod.fst ∧ b ∉ rest.map Prod.snd) := by
    by_contra! both
    obtain ⟨absent, touched⟩ := both
    by_cases isSender : a ∈ rest.map Prod.fst
    · obtain ⟨pair, member, isPair⟩ := List.mem_map.mp isSender
      exact absent (List.inj_on_of_nodup_map senders ((same _).mpr (Or.inr member)) planned isPair ▸ member)
    · obtain ⟨pair, member, isPair⟩ := List.mem_map.mp (touched isSender)
      exact absent (List.inj_on_of_nodup_map receivers ((same _).mpr (Or.inr member)) planned isPair ▸ member)
  ext c d
  rw [mem_assignAll senders receivers, mem_assignAll restSenders restReceivers, mem_assign, same, sender,
    receiver, Prod.mk.injEq]
  constructor
  · rintro (inRest | ⟨⟨isSender, isReceiver⟩ | ⟨old, apart, clear⟩, outside, other⟩)
    · exact Or.inl (Or.inr inRest)
    · exact Or.inl (Or.inl ⟨isSender, isReceiver⟩)
    · exact Or.inr ⟨old, not_or.mpr ⟨apart, outside⟩, not_or.mpr ⟨clear, other⟩⟩
  · rintro ((⟨rfl, rfl⟩ | inRest) | ⟨old, outside, other⟩)
    · exact first.imp id fun untouched => ⟨Or.inl ⟨rfl, rfl⟩, untouched⟩
    · exact Or.inl inRest
    · rw [not_or] at outside other
      exact Or.inr ⟨Or.inr ⟨old, outside.1, other.1⟩, outside.2, other.2⟩

end Plans

end PartialMatching

end Matching
