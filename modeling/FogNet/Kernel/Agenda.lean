import FogNet.Kernel.EventSet

namespace Kernel

open scoped List

variable {E : Type*}

def Chronological (entries : List (Nat × E)) : Prop :=
  entries.Pairwise fun first second => first.1 ≤ second.1

def dueAfter (now : Nat) (delays : List (Nat × E)) : List (Nat × E) :=
  delays.map fun entry => (now + entry.1, entry.2)

def enter (asked entries : List (Nat × E)) : List (Nat × E) :=
  asked.foldl (fun entries entry => schedule entry.1 entry.2 entries) entries

/-- The order in which entries asked for one after the other come up. -/
def agenda (asked : List (Nat × E)) : List (Nat × E) := enter asked []

theorem scheduleAll_eq (now : Nat) (delays entries : List (Nat × E)) :
    scheduleAll now delays entries = enter (dueAfter now delays) entries := by
  rw [enter, dueAfter, List.foldl_map]
  rfl

theorem enter_append (first second entries : List (Nat × E)) :
    enter (first ++ second) entries = enter second (enter first entries) := List.foldl_append

theorem schedule_chronological {entries : List (Nat × E)} (ordered : Chronological entries) (time : Nat)
    (event : E) : Chronological (schedule time event entries) := by
  induction entries with
  | nil => exact List.pairwise_singleton _ _
  | cons entry entries ih =>
    obtain ⟨first, rest⟩ := List.pairwise_cons.mp ordered
    unfold schedule
    split
    · rename_i before
      refine List.pairwise_cons.mpr ⟨fun other member => ?_, ih rest⟩
      rcases List.mem_cons.mp ((schedule_perm time event entries).subset member) with rfl | old
      · exact before
      · exact first other old
    · rename_i behind
      refine List.pairwise_cons.mpr ⟨fun other member => ?_, ordered⟩
      rcases List.mem_cons.mp member with rfl | old
      · exact Nat.le_of_not_le behind
      · exact Nat.le_trans (Nat.le_of_not_le behind) (first other old)

theorem enter_chronological (asked : List (Nat × E)) {entries : List (Nat × E)}
    (ordered : Chronological entries) : Chronological (enter asked entries) := by
  induction asked generalizing entries with
  | nil => exact ordered
  | cons entry asked ih => exact ih (schedule_chronological ordered _ _)

theorem enter_perm (asked entries : List (Nat × E)) : (enter asked entries).Perm (entries ++ asked) := by
  induction asked generalizing entries with
  | nil => simp [enter]
  | cons entry asked ih =>
    calc enter (entry :: asked) entries
      _ ~ schedule entry.1 entry.2 entries ++ asked := ih _
      _ ~ entry :: entries ++ asked := (schedule_perm _ _ _).append_right _
      _ ~ entries ++ entry :: asked := List.perm_middle.symm

/-- What is due no later than a new entry stays where it is. -/
theorem schedule_append {front : List (Nat × E)} {time : Nat} (past : ∀ entry ∈ front, entry.1 ≤ time)
    (event : E) (back : List (Nat × E)) :
    schedule time event (front ++ back) = front ++ schedule time event back := by
  induction front with
  | nil => rfl
  | cons entry front ih =>
    rw [List.cons_append, schedule, if_pos (past entry (by simp)), List.cons_append]
    exact congrArg _ (ih fun other member => past other (by simp [member]))

theorem enter_behind {asked front : List (Nat × E)}
    (past : ∀ entry ∈ front, ∀ later ∈ asked, entry.1 ≤ later.1) (back : List (Nat × E)) :
    enter asked (front ++ back) = front ++ enter asked back := by
  induction asked generalizing back with
  | nil => rfl
  | cons next asked ih =>
    have here : schedule next.1 next.2 (front ++ back) = front ++ schedule next.1 next.2 back :=
      schedule_append (fun entry member => past entry member next (by simp)) _ _
    unfold enter at ih ⊢
    rw [List.foldl_cons, here, List.foldl_cons]
    exact ih (fun entry member later isLater => past entry member later (by simp [isLater])) _

theorem schedule_filter_other {kept : Nat × E → Bool} {time : Nat} {event : E}
    (other : kept (time, event) = false) (entries : List (Nat × E)) :
    (schedule time event entries).filter kept = entries.filter kept := by
  induction entries with
  | nil => simp [schedule, other]
  | cons entry entries ih =>
    unfold schedule
    split
    · rw [List.filter_cons, List.filter_cons, ih]
    · rw [List.filter_cons, other]
      rfl

/-- Among the kept entries a new one that is due no earlier than the others comes last. -/
theorem schedule_filter_last {kept : Nat × E → Bool} {time : Nat} {event : E}
    (isKept : kept (time, event) = true) {entries : List (Nat × E)} (ordered : Chronological entries)
    (latest : ∀ entry ∈ entries, kept entry = true → entry.1 ≤ time) :
    (schedule time event entries).filter kept = entries.filter kept ++ [(time, event)] := by
  induction entries with
  | nil => simp [schedule, isKept]
  | cons entry entries ih =>
    obtain ⟨first, rest⟩ := List.pairwise_cons.mp ordered
    unfold schedule
    split
    · have later := ih rest fun other member => latest other (by simp [member])
      rw [List.filter_cons, List.filter_cons, later]
      split <;> rfl
    · rename_i behind
      have noneKept : (entry :: entries).filter kept = [] := by
        refine List.filter_eq_nil_iff.mpr fun other member isOther => behind ?_
        rcases List.mem_cons.mp member with rfl | old
        · exact latest other (by simp) isOther
        · exact Nat.le_trans (first other old) (latest other member isOther)
      rw [List.filter_cons, isKept, noneKept]
      rfl

/-- A class whose members are asked for in the order of their times is never reordered. -/
theorem enter_filter {kept : Nat × E → Bool} {asked entries : List (Nat × E)}
    (ordered : Chronological entries) (inOrder : Chronological ((entries ++ asked).filter kept)) :
    (enter asked entries).filter kept = (entries ++ asked).filter kept := by
  induction asked generalizing entries with
  | nil => simp [enter]
  | cons entry asked ih =>
    have step : (schedule entry.1 entry.2 entries ++ asked).filter kept =
        (entries ++ entry :: asked).filter kept := by
      rw [List.filter_append, List.filter_append, List.filter_cons]
      cases isKept : kept entry with
      | false => rw [schedule_filter_other isKept]; rfl
      | true =>
        rw [schedule_filter_last isKept ordered, List.append_assoc]
        · rfl
        · intro other member isOther
          rw [List.filter_append, List.filter_cons, isKept] at inOrder
          exact (List.pairwise_append.mp inOrder).2.2 other (List.mem_filter.mpr ⟨member, isOther⟩) entry
            (by simp)
    rw [← step]
    exact ih (schedule_chronological ordered _ _) (step ▸ inOrder)

theorem agenda_perm (asked : List (Nat × E)) : (agenda asked).Perm asked := enter_perm asked []

theorem agenda_chronological (asked : List (Nat × E)) : Chronological (agenda asked) :=
  enter_chronological asked List.Pairwise.nil

theorem agenda_filter {kept : Nat × E → Bool} {asked : List (Nat × E)}
    (inOrder : Chronological (asked.filter kept)) : (agenda asked).filter kept = asked.filter kept :=
  enter_filter List.Pairwise.nil inOrder

theorem agenda_eq {asked : List (Nat × E)} (inOrder : Chronological asked) : agenda asked = asked := by
  have all : asked.filter (fun _ => true) = asked := List.filter_true asked
  have whole := agenda_filter (all ▸ inOrder)
  simpa using whole

/-- What is asked for first and due first comes up first. -/
theorem agenda_append {front later : List (Nat × E)} (inOrder : Chronological front)
    (past : ∀ entry ∈ front, ∀ other ∈ later, entry.1 ≤ other.1) :
    agenda (front ++ later) = front ++ agenda later := by
  have first : agenda front = front ++ [] := by
    rw [agenda_eq inOrder, List.append_nil]
  rw [agenda, enter_append, ← agenda, first, enter_behind past]
  rfl

/-- The events handled and those still to come are what was asked for, in the order of the agenda. -/
structure Accounted (asked handled : List (Nat × E)) (now : Nat) (events : List (Nat × E)) : Prop where
  order : handled ++ events = agenda asked
  past : ∀ entry ∈ handled, entry.1 ≤ now
  future : ∀ entry ∈ events, now ≤ entry.1

theorem accounted_start {asked : List (Nat × E)} (inOrder : Chronological asked) {now : Nat}
    (future : ∀ entry ∈ asked, now ≤ entry.1) : Accounted asked [] now asked where
  order := (agenda_eq inOrder).symm
  past := by simp
  future := future

namespace Accounted

variable {asked handled events : List (Nat × E)} {now : Nat}

theorem chronological (known : Accounted asked handled now events) : Chronological (handled ++ events) :=
  known.order ▸ agenda_chronological asked

theorem conserved (known : Accounted asked handled now events) : (handled ++ events).Perm asked :=
  known.order ▸ agenda_perm asked

theorem fifo (known : Accounted asked handled now events) {kept : Nat × E → Bool}
    (inOrder : Chronological (asked.filter kept)) :
    handled.filter kept ++ events.filter kept = asked.filter kept := by
  rw [← List.filter_append, known.order, agenda_filter inOrder]

theorem next_first {entry : Nat × E} {rest : List (Nat × E)}
    (known : Accounted asked handled now (entry :: rest)) : ∀ other ∈ entry :: rest, entry.1 ≤ other.1 := by
  have ordered := (List.pairwise_append.mp known.chronological).2.1
  intro other member
  rcases List.mem_cons.mp member with rfl | later
  · exact Nat.le_refl _
  · exact List.rel_of_pairwise_cons ordered later

/-- Whatever is due before everything still to come has been handled. -/
theorem due_handled (known : Accounted asked handled now events) {bound : Nat}
    (later : ∀ entry ∈ events, bound ≤ entry.1) {entry : Nat × E} (member : entry ∈ asked)
    (due : entry.1 < bound) : entry ∈ handled := by
  rcases List.mem_append.mp (known.conserved.mem_iff.mpr member) with done | waiting
  · exact done
  · exact absurd (later entry waiting) (Nat.not_le.mpr due)

/-- One turn of the loop: the first event is handled at its time and asks for others after delays. -/
theorem turn {entry : Nat × E} {rest : List (Nat × E)}
    (known : Accounted asked handled now (entry :: rest)) (delays : List (Nat × E)) :
    Accounted (asked ++ dueAfter entry.1 delays) (handled ++ [entry]) entry.1
      (scheduleAll entry.1 delays rest) := by
  have reached := known.future entry (by simp)
  have before : ∀ other ∈ handled ++ [entry], other.1 ≤ entry.1 := by
    intro other member
    rcases List.mem_append.mp member with done | here
    · exact Nat.le_trans (known.past other done) reached
    · exact Nat.le_of_eq (congrArg Prod.fst (List.mem_singleton.mp here))
  have later : ∀ other ∈ dueAfter entry.1 delays, entry.1 ≤ other.1 := by
    intro other member
    obtain ⟨delay, _, rfl⟩ := List.mem_map.mp member
    exact Nat.le_add_right _ _
  refine ⟨?_, before, fun other member => ?_⟩
  · have split : agenda asked = handled ++ [entry] ++ rest := by
      rw [← known.order, List.append_cons]
    rw [agenda, enter_append, ← agenda, split, scheduleAll_eq, enter_behind]
    exact fun other done next asksNext => Nat.le_trans (before other done) (later next asksNext)
  · rw [scheduleAll_eq] at member
    rcases List.mem_append.mp ((enter_perm _ _).subset member) with old | new
    · exact known.next_first other (List.mem_cons_of_mem _ old)
    · exact later other new

end Accounted

end Kernel
