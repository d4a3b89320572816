import Mathlib.Data.List.Perm.Basic

namespace Kernel

open scoped List

variable {E : Type*}

/-- Insertion by time. Among events of one time the one scheduled first stays first. -/
def schedule (time : Nat) (event : E) : List (Nat × E) → List (Nat × E)
  | [] => [(time, event)]
  | entry :: entries =>
    if entry.1 ≤ time then entry :: schedule time event entries
    else (time, event) :: entry :: entries

def scheduleAll (now : Nat) (scheduled entries : List (Nat × E)) : List (Nat × E) :=
  scheduled.foldl (fun entries entry => schedule (now + entry.1) entry.2 entries) entries

theorem schedule_perm (time : Nat) (event : E) (entries : List (Nat × E)) :
    (schedule time event entries).Perm ((time, event) :: entries) := by
  induction entries with
  | nil => exact List.Perm.refl _
  | cons entry entries ih =>
    unfold schedule
    split
    · exact (ih.cons entry).trans (List.Perm.swap _ _ _)
    · exact List.Perm.refl _

theorem scheduleAll_perm (now : Nat) (scheduled entries : List (Nat × E)) :
    ((scheduleAll now scheduled entries).map Prod.snd).Perm
      (entries.map Prod.snd ++ scheduled.map Prod.snd) := by
  induction scheduled generalizing entries with
  | nil => simp [scheduleAll]
  | cons entry scheduled ih =>
    calc (scheduleAll now (entry :: scheduled) entries).map Prod.snd
      _ ~ (schedule (now + entry.1) entry.2 entries).map Prod.snd ++ scheduled.map Prod.snd := ih _
      _ ~ entry.2 :: entries.map Prod.snd ++ scheduled.map Prod.snd :=
          ((schedule_perm _ _ _).map Prod.snd).append_right _
      _ ~ entries.map Prod.snd ++ (entry :: scheduled).map Prod.snd := List.perm_middle.symm

example : schedule 5 'c' [(5, 'a'), (7, 'b')] = [(5, 'a'), (5, 'c'), (7, 'b')] := by decide

end Kernel
