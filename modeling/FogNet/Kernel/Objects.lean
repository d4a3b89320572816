import Mathlib.Data.List.Infix
import Mathlib.Data.Option.Basic

namespace Kernel

variable {Obj ε : Type*}

/-- The pointers refer to the values in order. A pointer is the number of an allocation. -/
def Refers (objects : List Obj) (pointers : List Nat) (values : List Obj) : Prop :=
  pointers.map (fun pointer => objects[pointer]?) = values.map some

theorem Refers.bound {objects values : List Obj} {pointers : List Nat}
    (refers : Refers objects pointers values) {pointer : Nat} (member : pointer ∈ pointers) :
    pointer < objects.length := by
  have read : objects[pointer]? ∈ values.map some := refers ▸ List.mem_map_of_mem member
  obtain ⟨value, _, same⟩ := List.mem_map.mp read
  exact (List.getElem?_eq_some_iff.mp same.symm).1

theorem Refers.unique {objects left right : List Obj} {pointers : List Nat}
    (first : Refers objects pointers left) (second : Refers objects pointers right) : left = right :=
  List.map_injective_iff.mpr (fun _ _ => Option.some.inj) (first.symm.trans second)

theorem Refers.extend {objects values : List Obj} {pointers : List Nat}
    (refers : Refers objects pointers values) (more : List Obj) : Refers (objects ++ more) pointers values := by
  rw [Refers, ← refers]
  exact List.map_congr_left fun pointer member => List.getElem?_append_left (refers.bound member)

theorem refers_allocated (objects values : List Obj) :
    Refers (objects ++ values) (List.range' objects.length values.length) values := by
  refine List.ext_getElem? fun index => ?_
  simp only [List.getElem?_map]
  by_cases bound : index < values.length
  · simp [bound]
  · simp [bound]

def cloneStep (clone : Obj → Except ε Obj) (dangling : ε) (made : List Obj × List Nat)
    (pointer : Nat) : Except ε (List Obj × List Nat) :=
  match made.1[pointer]? with
  | none => .error dangling
  | some object => do
    let copy ← clone object
    return (made.1 ++ [copy], made.2 ++ [made.1.length])

theorem cloneStep_eq {clone : Obj → Except ε Obj} {dangling : ε} {made : List Obj × List Nat}
    {pointer : Nat} {value : Obj} (read : made.1[pointer]? = some value) :
    cloneStep clone dangling made pointer =
      (clone value).map fun copy => (made.1 ++ [copy], made.2 ++ [made.1.length]) := by
  rw [cloneStep, read]
  dsimp only
  cases clone value <;> rfl

/-- Cloning what the pointers refer to, one after the other, allocates the clones in that order. -/
theorem cloneAll_eq {clone : Obj → Except ε Obj} {dangling : ε} {objects values : List Obj}
    {pointers : List Nat} (refers : Refers objects pointers values) (made : List Nat) :
    pointers.foldlM (cloneStep clone dangling) (objects, made) =
      (values.mapM clone).map fun copies =>
        (objects ++ copies, made ++ List.range' objects.length copies.length) := by
  induction pointers generalizing objects values made with
  | nil =>
    obtain rfl : values = [] := by simpa [Refers] using refers.symm
    simp [Pure.pure, Except.pure, Except.map]
  | cons pointer pointers ih =>
    cases values with
    | nil => simp [Refers] at refers
    | cons value values =>
      obtain ⟨read, rest⟩ := List.cons.inj refers
      have read : objects[pointer]? = some value := read
      rw [List.foldlM_cons, List.mapM_cons, cloneStep_eq read]
      cases clone value with
      | error fault => rfl
      | ok copy =>
        have later := ih (Refers.extend rest [copy]) (made ++ [objects.length])
        simp only [Except.map, Bind.bind, Except.bind, Pure.pure, Except.pure] at later ⊢
        rw [later]
        cases values.mapM clone with
        | error fault => rfl
        | ok copies => simp [List.range'_succ]

theorem mapM_eq_self_iff {clone : Obj → Except ε Obj} {values : List Obj} :
    values.mapM clone = .ok values ↔ ∀ value ∈ values, clone value = .ok value := by
  induction values with
  | nil => simp [Pure.pure, Except.pure]
  | cons value values ih =>
    rw [List.mapM_cons, List.forall_mem_cons, ← ih]
    cases clone value with
    | error fault => simp [Bind.bind, Except.bind]
    | ok copy =>
      cases values.mapM clone with
      | error fault => simp [Bind.bind, Except.bind]
      | ok copies => simp [Bind.bind, Except.bind, Pure.pure, Except.pure]

end Kernel
