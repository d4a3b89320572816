import Mathlib.Data.List.Induction
import Mathlib.Logic.Relation

namespace Kernel

variable {S E T D : Type*}

/-- Runs of a labelled step relation of which every step is one that `allowed` permits. -/
def Run (step : S → E → S → Prop) (allowed : S → E → Prop) : S → S → Prop :=
  Relation.ReflTransGen fun before after => ∃ label, allowed before label ∧ step before label after

variable {step : S → E → S → Prop} {allowed : S → E → Prop} {start finish : S}

theorem Run.snoc {last : S} {label : E} (run : Run step allowed start finish)
    (permitted : allowed finish label) (taken : step finish label last) : Run step allowed start last :=
  Relation.ReflTransGen.tail run ⟨label, permitted, taken⟩

/-- What holds at the start and survives every permitted step holds all along a run. -/
theorem Run.invariant {holds : S → Prop}
    (preserved : ∀ before label after, holds before → allowed before label →
      step before label after → holds after)
    (run : Run step allowed start finish) (initially : holds start) : holds finish := by
  induction run with
  | refl => exact initially
  | tail _ last ih =>
    obtain ⟨label, permitted, taken⟩ := last
    exact preserved _ label _ ih permitted taken

/-- A map that turns every permitted step into a run, where an invariant holds, turns runs into
    runs. -/
theorem Run.simulate {target : T → D → T → Prop} {within : T → D → Prop} {holds : S → Prop}
    (image : S → T)
    (simulates : ∀ before label after, holds before → allowed before label → step before label after →
      holds after ∧ Run target within (image before) (image after))
    (run : Run step allowed start finish) (initially : holds start) :
    holds finish ∧ Run target within (image start) (image finish) := by
  induction run with
  | refl => exact ⟨initially, Relation.ReflTransGen.refl⟩
  | tail _ last ih =>
    obtain ⟨label, permitted, taken⟩ := last
    obtain ⟨after, onward⟩ := simulates _ label _ ih.1 permitted taken
    exact ⟨after, Relation.ReflTransGen.trans ih.2 onward⟩

/-- A run from `start` with the labels of its steps, in order. -/
inductive Labelled (step : S → E → S → Prop) (start : S) : List E → S → Prop where
  | refl : Labelled step start [] start
  | snoc {labels : List E} {before after : S} {label : E} (run : Labelled step start labels before)
      (taken : step before label after) : Labelled step start (labels ++ [label]) after

theorem Labelled.run {labels : List E} (labelled : Labelled step start labels finish)
    (permitted : ∀ label ∈ labels, ∀ before, allowed before label) : Run step allowed start finish := by
  induction labelled with
  | refl => exact Relation.ReflTransGen.refl
  | snoc _ taken ih =>
    have earlier := ih fun label member => permitted label (List.mem_append_left _ member)
    exact earlier.snoc (permitted _ (by simp) _) taken

theorem Labelled.append {labels more : List E} {last : S}
    (first : Labelled step start labels finish) (second : Labelled step finish more last) :
    Labelled step start (labels ++ more) last := by
  induction second with
  | refl => simpa using first
  | snoc _ taken ih =>
    rw [← List.append_assoc]
    exact ih.snoc taken

theorem Labelled.last {labels : List E} {label : E}
    (labelled : Labelled step start (labels ++ [label]) finish) :
    ∃ before, Labelled step start labels before ∧ step before label finish := by
  generalize whole : labels ++ [label] = all at labelled
  cases labelled with
  | refl => simp at whole
  | snoc run taken =>
    obtain ⟨rfl, same⟩ := List.append_inj' whole rfl
    cases same
    exact ⟨_, run, taken⟩

theorem Labelled.split {earlier later : List E} {label : E}
    (labelled : Labelled step start (earlier ++ label :: later) finish) :
    ∃ before after, Labelled step start earlier before ∧ step before label after ∧
      Labelled step after later finish := by
  induction later using List.reverseRecOn generalizing finish with
  | nil =>
    obtain ⟨before, run, taken⟩ := labelled.last
    exact ⟨before, finish, run, taken, Labelled.refl⟩
  | append_singleton later next ih =>
    rw [← List.cons_append, ← List.append_assoc] at labelled
    obtain ⟨middle, run, taken⟩ := labelled.last
    obtain ⟨before, after, first, here, rest⟩ := ih run
    exact ⟨before, after, first, here, rest.snoc taken⟩

end Kernel
