import FogNet.Matching.Greedy

namespace Matching

variable {A B V : Type*}

def row (admits : A → B → Bool) (receivers : List B) (sender : A) : List (A × B) :=
  (receivers.filter (admits sender)).map fun receiver => (sender, receiver)

def table (admits : A → B → Bool) (receivers : List B) (senders : List A) : List (A × B) :=
  senders.flatMap (row admits receivers)

def edgeOf (senderName : A → V) (receiverName : B → V) (pair : A × B) : V × V :=
  (senderName pair.1, receiverName pair.2)

theorem mem_row {admits : A → B → Bool} {receivers : List B} {sender : A} {pair : A × B} :
    pair ∈ row admits receivers sender ↔
      pair.1 = sender ∧ pair.2 ∈ receivers ∧ admits sender pair.2 = true := by
  obtain ⟨first, second⟩ := pair
  simp only [row, List.mem_map, List.mem_filter, Prod.mk.injEq]
  constructor
  · rintro ⟨receiver, ⟨member, admitted⟩, rfl, rfl⟩
    exact ⟨rfl, member, admitted⟩
  · rintro ⟨rfl, member, admitted⟩
    exact ⟨second, ⟨member, admitted⟩, rfl, rfl⟩

section Selection

variable [DecidableEq V] {admits : A → B → Bool} {senderName : A → V} {receiverName : B → V}

theorem row_skip {used : List V} {receivers : List B} {sender : A}
    (blocked : ∀ receiver ∈ receivers, admits sender receiver = true → receiverName receiver ∈ used)
    (rest : List (V × V)) :
    greedy used ((row admits receivers sender).map (edgeOf senderName receiverName) ++ rest) =
      greedy used rest := by
  apply greedy_skip
  intro edge member
  obtain ⟨pair, pairMember, rfl⟩ := List.mem_map.mp member
  obtain ⟨_, inReceivers, admitted⟩ := mem_row.mp pairMember
  exact Or.inr (blocked pair.2 inReceivers admitted)

theorem row_skip_sender {used : List V} {receivers : List B} {sender : A}
    (isUsed : senderName sender ∈ used) (rest : List (V × V)) :
    greedy used ((row admits receivers sender).map (edgeOf senderName receiverName) ++ rest) =
      greedy used rest := by
  apply greedy_skip
  intro edge member
  obtain ⟨pair, pairMember, rfl⟩ := List.mem_map.mp member
  exact Or.inl (by simpa [edgeOf, (mem_row.mp pairMember).1] using isUsed)

variable [DecidableEq B]

/-- Every sender in turn takes the first receiver that admits it and that nobody took before. -/
def firstFit (admits : A → B → Bool) (receivers : List B) : List B → List A → List (A × B)
  | _, [] => []
  | taken, sender :: senders =>
    match receivers.find? fun receiver => admits sender receiver && receiver ∉ taken with
    | some receiver => (sender, receiver) :: firstFit admits receivers (receiver :: taken) senders
    | none => firstFit admits receivers taken senders

theorem row_take {used : List V} {receivers : List B} {taken : List B} {sender : A} {receiver : B}
    (free : senderName sender ∉ used)
    (agree : ∀ b ∈ receivers, receiverName b ∈ used ↔ b ∈ taken)
    (first : receivers.find? (fun b => admits sender b && b ∉ taken) = some receiver)
    (rest : List (V × V)) :
    greedy used ((row admits receivers sender).map (edgeOf senderName receiverName) ++ rest) =
      edgeOf senderName receiverName (sender, receiver) ::
        greedy (receiverName receiver :: senderName sender :: used) rest := by
  obtain ⟨fits, before, after, rfl, passed⟩ := List.find?_eq_some_iff_append.mp first
  simp only [Bool.and_eq_true, decide_eq_true_eq] at fits
  have rows : row admits (before ++ receiver :: after) sender =
      row admits before sender ++ (sender, receiver) :: row admits after sender := by
    simp [row, fits.1]
  have blocked : ∀ b ∈ before, admits sender b = true → receiverName b ∈ used := by
    intro b member admitted
    have miss := passed b member
    simp only [admitted, Bool.true_and, Bool.not_eq_true', decide_eq_false_iff_not, not_not] at miss
    exact (agree b (by simp [member])).mpr miss
  have unused : receiverName receiver ∉ used := fun isUsed =>
    fits.2 ((agree receiver (by simp)).mp isUsed)
  rw [rows, List.map_append, List.append_assoc, row_skip blocked, List.map_cons, List.cons_append,
    greedy, if_pos ⟨free, unused⟩]
  exact congrArg _ (row_skip_sender (by simp [edgeOf]) rest)

/-- Greedy selection from the table of all admitted pairs is first fit. The induction is on the
    senders; the used names are those of the receivers taken so far and of earlier senders. -/
theorem greedy_table (receivers : List B) (senders : List A) (taken : List B) (used : List V)
    (distinct : (senders.map senderName).Nodup)
    (injective : ∀ left ∈ receivers, ∀ right ∈ receivers,
      receiverName left = receiverName right → left = right)
    (apart : ∀ a ∈ senders, ∀ b ∈ receivers, senderName a ≠ receiverName b)
    (free : ∀ a ∈ senders, senderName a ∉ used)
    (agree : ∀ b ∈ receivers, receiverName b ∈ used ↔ b ∈ taken) :
    greedy used ((table admits receivers senders).map (edgeOf senderName receiverName)) =
      (firstFit admits receivers taken senders).map (edgeOf senderName receiverName) := by
  induction senders generalizing taken used with
  | nil => rfl
  | cons sender senders ih =>
    obtain ⟨headFresh, tailDistinct⟩ := List.nodup_cons.mp distinct
    have tailApart : ∀ a ∈ senders, ∀ b ∈ receivers, senderName a ≠ receiverName b :=
      fun a member => apart a (by simp [member])
    rw [table, List.flatMap_cons, List.map_append, firstFit]
    cases found : receivers.find? (fun b => admits sender b && b ∉ taken) with
    | none =>
      have blocked : ∀ b ∈ receivers, admits sender b = true → receiverName b ∈ used := by
        intro b member admitted
        have miss := List.find?_eq_none.mp found b member
        simp only [admitted, Bool.true_and, decide_eq_true_eq, not_not] at miss
        exact (agree b member).mpr miss
      rw [row_skip blocked]
      exact ih taken used tailDistinct tailApart (fun a member => free a (by simp [member])) agree
    | some receiver =>
      have member : receiver ∈ receivers := List.mem_of_find?_eq_some found
      rw [row_take (free sender (by simp)) agree found, List.map_cons]
      congr 1
      apply ih (receiver :: taken) _ tailDistinct tailApart
      · intro a later
        simp only [List.mem_cons, not_or]
        refine ⟨apart a (by simp [later]) receiver member, fun same => ?_, free a (by simp [later])⟩
        exact headFresh (same ▸ List.mem_map_of_mem later)
      · intro b inReceivers
        simp only [List.mem_cons, agree b inReceivers]
        have notSender : receiverName b ≠ senderName sender :=
          (apart sender (by simp) b inReceivers).symm
        have same : receiverName b = receiverName receiver ↔ b = receiver :=
          ⟨injective b inReceivers receiver member, congrArg _⟩
        simp only [notSender, same, false_or]

end Selection

end Matching
