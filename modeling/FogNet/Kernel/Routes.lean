import Mathlib.Data.List.Nodup

namespace Kernel

/-- A connection that the description of a network declares, with the delay of its channel. -/
structure Connection (G : Type*) where
  source : G
  target : G
  delay : Nat
  deriving DecidableEq, Repr

variable {G : Type*}

/-- What leaves `gate` passes the connections one after the other and arrives at a gate with none,
    after the sum of their delays. -/
inductive Leads (connections : List (Connection G)) : G → Nat → G → Prop where
  | here {gate : G} (last : ∀ connection ∈ connections, connection.source ≠ gate) :
      Leads connections gate 0 gate
  | across {connection : Connection G} {delay : Nat} {finish : G} (member : connection ∈ connections)
      (rest : Leads connections connection.target delay finish) :
      Leads connections connection.source (connection.delay + delay) finish

/-- No gate is the source, or the target, of two connections. -/
def OneToOne (connections : List (Connection G)) : Prop :=
  ∀ left ∈ connections, ∀ right ∈ connections,
    left.source = right.source ∨ left.target = right.target → left = right

variable {connections : List (Connection G)}

theorem Leads.unique (oneToOne : OneToOne connections) {gate first second : G} {early late : Nat}
    (left : Leads connections gate early first) (right : Leads connections gate late second) :
    early = late ∧ first = second := by
  induction left generalizing late with
  | here last =>
    cases right with
    | here => exact ⟨rfl, rfl⟩
    | across member _ => exact absurd rfl (last _ member)
  | @across connection delay finish member rest ih =>
    generalize start : connection.source = gate at right
    cases right with
    | here last => exact absurd start (last _ member)
    | @across other _ _ otherMember otherRest =>
      have same := oneToOne connection member other otherMember (Or.inl start)
      subst same
      obtain ⟨delays, finishes⟩ := ih otherRest
      exact ⟨congrArg _ delays, finishes⟩

section Vectors

variable {D : Type*} (connection : D → Nat → Connection G)

/-- The connections of `items` to a gate vector of which `size` gates are taken, each to the next gate. -/
def connectNext (size : Nat) (items : List D) : List (Connection G) :=
  (items.zipIdx size).map fun item => connection item.1 item.2

theorem connectNext_append (size : Nat) (left right : List D) :
    connectNext connection size (left ++ right) =
      connectNext connection size left ++ connectNext connection (size + left.length) right := by
  simp [connectNext, List.zipIdx_append]

theorem connectNext_snoc (size : Nat) (items : List D) (item : D) :
    connectNext connection size (items ++ [item]) =
      connectNext connection size items ++ [connection item (size + items.length)] := by
  rw [connectNext_append]
  rfl

variable {connection}

theorem mem_connectNext {items : List D} {found : Connection G} :
    found ∈ connectNext connection 0 items ↔
      ∃ index item, items[index]? = some item ∧ found = connection item index := by
  simp only [connectNext, List.mem_map, List.mem_zipIdx_iff_getElem?]
  constructor
  · rintro ⟨⟨item, index⟩, stands, rfl⟩
    exact ⟨index, item, stands, rfl⟩
  · rintro ⟨index, item, stands, rfl⟩
    exact ⟨(item, index), stands, rfl⟩

end Vectors

end Kernel
