import Mathlib.Data.List.Induction
import Mathlib.Data.List.Nodup

namespace Kernel

variable {α K : Type*} [DecidableEq K]

/-- Put an item into an array of named items: in the place of the item with the same name when
    there is one, else behind the others. -/
def setNamed (name : α → K) : List α → α → List α
  | [], item => [item]
  | old :: rest, item =>
    if name old = name item then item :: rest else old :: setNamed name rest item

variable {name : α → K}

theorem setNamed_names (array : List α) (item : α) :
    (setNamed name array item).map name =
      if name item ∈ array.map name then array.map name else array.map name ++ [name item] := by
  induction array with
  | nil => simp [setNamed]
  | cons old rest ih =>
    by_cases here : name old = name item
    · simp [setNamed, here]
    · have other : ¬ name item = name old := fun same => here same.symm
      simp only [setNamed, here, if_false, List.map_cons, ih, List.mem_cons, other, false_or]
      split <;> simp

theorem setNamed_names_prefix (array : List α) (item : α) :
    array.map name <+: (setNamed name array item).map name := by
  rw [setNamed_names]
  split
  · exact List.prefix_rfl
  · exact List.prefix_append _ _

theorem setNamed_nodup {array : List α} (distinct : (array.map name).Nodup) (item : α) :
    ((setNamed name array item).map name).Nodup := by
  rw [setNamed_names]
  split
  · exact distinct
  · rename_i absent
    exact List.nodup_append.mpr ⟨distinct, List.nodup_singleton _, by
      intro left leftMember right rightMember same
      rw [List.mem_singleton.mp rightMember] at same
      exact absent (same ▸ leftMember)⟩

theorem mem_setNamed {array : List α} {item other : α} (member : other ∈ setNamed name array item) :
    other = item ∨ other ∈ array := by
  induction array with
  | nil => exact Or.inl (by simpa [setNamed] using member)
  | cons old rest ih =>
    unfold setNamed at member
    split at member
    · rcases List.mem_cons.mp member with same | later
      · exact Or.inl same
      · exact Or.inr (List.mem_cons_of_mem _ later)
    · rcases List.mem_cons.mp member with rfl | later
      · exact Or.inr (by simp)
      · exact (ih later).imp id (List.mem_cons_of_mem _)

/-- A search by name finds the item put last, and what it found before under every other name. -/
theorem find?_setNamed (array : List α) (item : α) (key : K) :
    (setNamed name array item).find? (fun other => name other = key) =
      if name item = key then some item else array.find? (fun other => name other = key) := by
  induction array with
  | nil => by_cases asked : name item = key <;> simp [setNamed, asked]
  | cons old rest ih =>
    by_cases here : name old = name item
    · by_cases asked : name item = key <;> simp [setNamed, here, asked]
    · simp only [setNamed, here, if_false, List.find?_cons, ih]
      by_cases asked : name old = key
      · have other : ¬ name item = key := fun same => here (asked.trans same.symm)
        simp [asked, other]
      · simp [asked]

theorem find?_of_mem {array : List α} (distinct : (array.map name).Nodup) {item : α}
    (member : item ∈ array) : array.find? (fun other => name other = name item) = some item := by
  cases search : array.find? (fun other => name other = name item) with
  | none => simpa using List.find?_eq_none.mp search item member
  | some found =>
    have named : name found = name item := by simpa using List.find?_some search
    rw [List.inj_on_of_nodup_map distinct (List.mem_of_find?_eq_some search) member named]

theorem setNamed_of_mem {array : List α} (distinct : (array.map name).Nodup) {item : α}
    (member : item ∈ array) : setNamed name array item = array := by
  induction array with
  | nil => cases member
  | cons old rest ih =>
    obtain ⟨fresh, restDistinct⟩ := List.nodup_cons.mp distinct
    rcases List.mem_cons.mp member with rfl | later
    · simp [setNamed]
    · have other : name old ≠ name item := fun same => fresh (same ▸ List.mem_map_of_mem later)
      rw [setNamed, if_neg other, ih restDistinct later]

/-- The items before the one with the name asked for stay where they are. -/
theorem setNamed_take {array : List α} {item : α} {count : Nat} (bound : count ≤ array.length)
    (other : name item ∉ (array.take count).map name) :
    (setNamed name array item).take count = array.take count := by
  induction array generalizing count with
  | nil => simp_all
  | cons old rest ih =>
    cases count with
    | zero => simp
    | succ count =>
      simp only [List.take_succ_cons, List.map_cons, List.mem_cons, not_or] at other
      have different : name old ≠ name item := fun same => other.1 same.symm
      rw [setNamed, if_neg different, List.take_succ_cons, List.take_succ_cons,
        ih (Nat.le_of_succ_le_succ bound) other.2]

def lastNamed (name : α → K) (items : List α) (key : K) : Option α :=
  (items.filter fun other => name other = key).getLast?

def setAllNamed (name : α → K) (items : List α) : List α := items.foldl (setNamed name) []

theorem setAllNamed_append_singleton (items : List α) (item : α) :
    setAllNamed name (items ++ [item]) = setNamed name (setAllNamed name items) item := by
  simp [setAllNamed]

theorem setAllNamed_prefix (items more : List α) :
    (setAllNamed name items).map name <+: (setAllNamed name (items ++ more)).map name := by
  induction more using List.reverseRecOn with
  | nil => simp
  | append_singleton more item ih =>
    rw [← List.append_assoc, setAllNamed_append_singleton]
    apply ih.trans
    apply setNamed_names_prefix

theorem setAllNamed_nodup (items : List α) : ((setAllNamed name items).map name).Nodup := by
  induction items using List.reverseRecOn with
  | nil => exact List.nodup_nil
  | append_singleton items item ih =>
    rw [setAllNamed_append_singleton]
    exact setNamed_nodup ih item

/-- The names stand in the order in which they were first used. -/
theorem setAllNamed_names [BEq K] [LawfulBEq K] (items : List α) :
    (setAllNamed name items).map name = (items.map name).eraseDups := by
  induction items using List.reverseRecOn with
  | nil => rfl
  | append_singleton items item ih =>
    rw [setAllNamed_append_singleton, setNamed_names, ih, List.map_append, List.eraseDups_append]
    by_cases used : name item ∈ items.map name
    · simp [used, List.cons_removeAll]
    · simp [used, List.cons_removeAll, List.eraseDups_cons]

section FirstUses

variable {A : Type*} [BEq A] [LawfulBEq A]

theorem eraseDups_nodup {keys : List A} (distinct : keys.Nodup) : keys.eraseDups = keys := by
  induction keys with
  | nil => rfl
  | cons key keys ih =>
    obtain ⟨fresh, rest⟩ := List.nodup_cons.mp distinct
    have others : keys.filter (fun other => !other == key) = keys := by
      apply List.filter_eq_self.mpr
      intro other member
      have different : other ≠ key := fun same => fresh (same ▸ member)
      simpa using different
    rw [List.eraseDups_cons, others, ih rest]

/-- Keys that are all used in an order before any is used again are first used in that order. -/
theorem eraseDups_prefix {base rest used : List A} (distinct : base.Nodup)
    (covered : ∀ key ∈ rest, key ∈ base) (isPrefix : used <+: base ++ rest) : used.eraseDups <+: base := by
  rcases Nat.le_total used.length base.length with short | long
  · have within : used <+: base := List.prefix_of_prefix_length_le isPrefix (List.prefix_append _ _) short
    rw [eraseDups_nodup (distinct.sublist within.sublist)]
    exact within
  · obtain ⟨more, rfl⟩ := List.prefix_of_prefix_length_le (List.prefix_append base rest) isPrefix long
    have repeats : more.removeAll base = [] := by
      apply List.filter_eq_nil_iff.mpr
      intro key member
      have known : key ∈ base := by
        rcases List.mem_append.mp (isPrefix.subset (List.mem_append_right base member)) with early | late
        · exact early
        · exact covered key late
      simpa using known
    have firsts : (base ++ more).eraseDups = base := by
      rw [List.eraseDups_append, repeats, eraseDups_nodup distinct, List.eraseDups_nil, List.append_nil]
    exact firsts.symm ▸ List.prefix_rfl

end FirstUses

/-- As a map from names to items, the array holds what was put last under each name. -/
theorem find?_setAllNamed (items : List α) (key : K) :
    (setAllNamed name items).find? (fun other => name other = key) = lastNamed name items key := by
  induction items using List.reverseRecOn with
  | nil => rfl
  | append_singleton items item ih =>
    rw [setAllNamed_append_singleton, find?_setNamed, ih, lastNamed, lastNamed, List.filter_append]
    by_cases asked : name item = key <;> simp [asked]

end Kernel
