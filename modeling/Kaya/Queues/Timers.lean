import Mathlib.Data.List.Perm.Basic
import Mathlib.Data.List.TakeWhile
import Mathlib.Order.Lattice

/-! Timer queues: requests to be woken up at a time, and ticks of a clock. -/

namespace Timers

variable {τ κ : Type} [LinearOrder τ] {l : List (τ × κ)} {r : τ × κ} {now : τ}

inductive Event (τ κ : Type) where
  | request (time : τ) (client : κ)
  | tick (now : τ) (fired : List κ)

/-- The requests for which no tick since has been late enough. The history is
listed newest first. -/
def waiting : List (Event τ κ) → List (τ × κ)
  | [] => []
  | .request time client :: l => (time, client) :: waiting l
  | .tick now _ :: l => (waiting l).filter (now < ·.1)

/-- Each tick fires exactly the requests for which it is the first tick that is
late enough, each of them once. -/
def Timely : List (Event τ κ) → Prop
  | [] => True
  | .request _ _ :: l => Timely l
  | .tick now fired :: l =>
    fired.Perm (((waiting l).filter (·.1 ≤ now)).map (·.2)) ∧ Timely l

/-- The requests in the order of their times. -/
def Sorted (l : List (τ × κ)) : Prop := l.Pairwise (·.1 ≤ ·.1)

theorem Sorted.nil : Sorted ([] : List (τ × κ)) := List.Pairwise.nil

/-- In a sorted queue the requests that are due stand in front. -/
theorem Sorted.takeWhile_eq (h : Sorted l) :
    l.takeWhile (·.1 ≤ now) = l.filter (·.1 ≤ now) := by
  induction l with
  | nil => rfl
  | cons x l ih =>
    obtain ⟨hx, hl⟩ := List.pairwise_cons.mp h
    by_cases hdue : x.1 ≤ now
    · rw [List.takeWhile_cons_of_pos (by simpa using hdue),
        List.filter_cons_of_pos (by simpa using hdue), ih hl]
    · rw [List.takeWhile_cons_of_neg (by simpa using hdue),
        List.filter_cons_of_neg (by simpa using hdue)]
      symm
      rw [List.filter_eq_nil_iff]
      intro y hy
      have hlt : now < y.1 := lt_of_lt_of_le (lt_of_not_ge hdue) (hx y hy)
      simpa using hlt

/-- In a sorted queue the requests that are not due stand at the back. -/
theorem Sorted.dropWhile_eq (h : Sorted l) :
    l.dropWhile (·.1 ≤ now) = l.filter (now < ·.1) := by
  induction l with
  | nil => rfl
  | cons x l ih =>
    obtain ⟨hx, hl⟩ := List.pairwise_cons.mp h
    by_cases hdue : x.1 ≤ now
    · rw [List.dropWhile_cons_of_pos (by simpa using hdue),
        List.filter_cons_of_neg (by simpa using hdue), ih hl]
    · rw [List.dropWhile_cons_of_neg (by simpa using hdue)]
      symm
      rw [List.filter_eq_self]
      intro y hy
      rcases List.mem_cons.mp hy with rfl | hy
      · simpa using hdue
      · have hlt : now < y.1 := lt_of_lt_of_le (lt_of_not_ge hdue) (hx y hy)
        simpa using hlt

/-- A queue without its first requests is still sorted. -/
theorem Sorted.drop (h : Sorted l) : Sorted (l.dropWhile (·.1 ≤ now)) :=
  List.Pairwise.sublist (List.dropWhile_sublist _) h

/-- A request put between those before it and the rest. -/
theorem Sorted.insert (h : Sorted l) :
    Sorted (l.takeWhile (·.1 < r.1) ++ r :: l.dropWhile (·.1 < r.1)) := by
  induction l with
  | nil => simp [Sorted]
  | cons x l ih =>
    obtain ⟨hx, hl⟩ := List.pairwise_cons.mp h
    by_cases hlt : x.1 < r.1
    · rw [List.takeWhile_cons_of_pos (by simpa using hlt),
        List.dropWhile_cons_of_pos (by simpa using hlt)]
      refine List.pairwise_cons.mpr ⟨?_, ih hl⟩
      intro y hy
      rcases List.mem_append.mp hy with hy | hy
      · exact hx y (List.takeWhile_subset _ hy)
      · rcases List.mem_cons.mp hy with rfl | hy
        · exact le_of_lt hlt
        · exact hx y (List.dropWhile_subset _ hy)
    · rw [List.takeWhile_cons_of_neg (by simpa using hlt),
        List.dropWhile_cons_of_neg (by simpa using hlt)]
      refine List.pairwise_cons.mpr ⟨?_, h⟩
      have hle : r.1 ≤ x.1 := le_of_not_gt hlt
      intro y hy
      rcases List.mem_cons.mp hy with rfl | hy
      · exact hle
      · exact le_trans hle (hx y hy)

/-- A tick that fires the front of a sorted queue with the waiting requests is
timely, and leaves the requests that still wait. -/
theorem Sorted.tick {history : List (Event τ κ)} (now : τ) (h : Sorted l) (hwait : l.Perm (waiting history))
    (htimely : Timely history) :
    (l.dropWhile (·.1 ≤ now)).Perm
        (waiting (.tick now ((l.takeWhile (·.1 ≤ now)).map (·.2)) :: history)) ∧
      Timely (.tick now ((l.takeWhile (·.1 ≤ now)).map (·.2)) :: history) := by
  refine ⟨?_, ?_, htimely⟩
  · rw [h.dropWhile_eq]
    exact hwait.filter _
  · rw [h.takeWhile_eq]
    exact (hwait.filter _).map _

end Timers
