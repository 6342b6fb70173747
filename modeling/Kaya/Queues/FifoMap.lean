import Mathlib.Data.List.Pairwise
import Mathlib.Data.List.Perm.Basic
import Mathlib.Data.List.Nodup
import Mathlib.Order.Lattice
import Mathlib.Tactic.Common

/-- A finite map from ordered keys to queues, as the list of its entries. -/
abbrev FifoMap (κ α : Type) : Type := List (κ × List α)

namespace FifoMap

variable {κ α : Type}

/-- Every queued element, in key order. -/
def values (m : FifoMap κ α) : List α := m.flatMap (·.2)

@[simp] theorem values_nil : values ([] : FifoMap κ α) = [] := rfl

@[simp] theorem values_cons (e : κ × List α) (m : FifoMap κ α) :
    values (e :: m) = e.2 ++ values m := rfl

/-- Drops the elements that do not satisfy `keep`, and the keys left without any. -/
def restrict (keep : α → Bool) (m : FifoMap κ α) : FifoMap κ α :=
  (m.map fun e => (e.1, e.2.filter keep)).filter fun e => !e.2.isEmpty

variable [LinearOrder κ]

/-- Keys ascend strictly and no key is kept for an empty queue. -/
structure WF (m : FifoMap κ α) : Prop where
  sorted : m.Pairwise (fun e e' => e.1 < e'.1)
  nonempty : ∀ e ∈ m, e.2 ≠ []

/-- The queue stored under a key, oldest element first. -/
def queue (a : κ) : FifoMap κ α → List α
  | [] => []
  | (b, l) :: m => if b = a then l else queue a m

/-- Appends an element to the queue of a key, creating the key when needed. -/
def enqueue (a : κ) (x : α) : FifoMap κ α → FifoMap κ α
  | [] => [(a, [x])]
  | (b, l) :: m =>
    if b < a then (b, l) :: enqueue a x m
    else if b = a then (b, l ++ [x]) :: m
    else (a, [x]) :: (b, l) :: m

/-- Replaces the queue of a key that is present; an empty queue drops the key. -/
def setQueue (a : κ) (q : List α) : FifoMap κ α → FifoMap κ α
  | [] => []
  | (b, l) :: m =>
    if b = a then (if q.isEmpty then m else (b, q) :: m)
    else (b, l) :: setQueue a q m

@[simp] theorem queue_nil (a : κ) : queue a ([] : FifoMap κ α) = [] := rfl

theorem WF.nil : WF ([] : FifoMap κ α) := ⟨by simp, by simp⟩

theorem wf_cons {b : κ} {l : List α} {m : FifoMap κ α} :
    WF ((b, l) :: m) ↔ l ≠ [] ∧ (∀ e ∈ m, b < e.1) ∧ WF m := by
  constructor
  · intro h
    have hs := List.pairwise_cons.mp h.sorted
    exact ⟨h.nonempty (b, l) List.mem_cons_self, hs.1,
      hs.2, fun e he => h.nonempty e (List.mem_cons_of_mem _ he)⟩
  · rintro ⟨hl, hb, hs, hn⟩
    refine ⟨List.pairwise_cons.mpr ⟨hb, hs⟩, ?_⟩
    intro e he
    rcases List.mem_cons.mp he with rfl | he
    · exact hl
    · exact hn e he

/-- A key below every key of the map has no queue. -/
theorem queue_of_lt {a : κ} {m : FifoMap κ α} (h : ∀ e ∈ m, a < e.1) : queue a m = [] := by
  induction m with
  | nil => rfl
  | cons e m ih =>
    have hne : e.1 ≠ a := (h e List.mem_cons_self).ne'
    rw [queue, if_neg hne]
    exact ih fun e he => h e (List.mem_cons_of_mem _ he)

theorem queue_of_mem {a : κ} {l : List α} {m : FifoMap κ α} (h : WF m) (hm : (a, l) ∈ m) :
    queue a m = l := by
  induction m with
  | nil => simp at hm
  | cons e m ih =>
    obtain ⟨b, k⟩ := e
    obtain ⟨-, hb, hw⟩ := wf_cons.mp h
    rcases List.mem_cons.mp hm with heq | hm
    · simp only [Prod.mk.injEq] at heq
      simp [queue, heq.1, heq.2]
    · rw [queue, if_neg (hb _ hm).ne]
      exact ih hw hm

theorem mem_of_queue_ne_nil {a : κ} {m : FifoMap κ α} (h : queue a m ≠ []) :
    (a, queue a m) ∈ m := by
  induction m with
  | nil => simp at h
  | cons e m ih =>
    obtain ⟨b, k⟩ := e
    by_cases hba : b = a
    · simp [queue, hba]
    · rw [queue, if_neg hba] at h ⊢
      exact List.mem_cons_of_mem _ (ih h)

theorem queue_ne_nil_iff {a : κ} {m : FifoMap κ α} (h : WF m) :
    queue a m ≠ [] ↔ ∃ e ∈ m, e.1 = a := by
  constructor
  · intro hq
    exact ⟨_, mem_of_queue_ne_nil hq, rfl⟩
  · rintro ⟨⟨b, l⟩, he, rfl⟩
    rw [queue_of_mem h he]
    exact h.nonempty _ he

theorem mem_values {x : α} {m : FifoMap κ α} (h : WF m) :
    x ∈ values m ↔ ∃ a, x ∈ queue a m := by
  simp only [values, List.mem_flatMap]
  constructor
  · rintro ⟨e, he, hx⟩
    exact ⟨e.1, by rwa [queue_of_mem h he]⟩
  · rintro ⟨a, hx⟩
    exact ⟨_, mem_of_queue_ne_nil (List.ne_nil_of_mem hx), hx⟩

theorem mem_values_of_mem_queue {x : α} {a : κ} {m : FifoMap κ α} (h : x ∈ queue a m) :
    x ∈ values m := by
  simp only [values, List.mem_flatMap]
  exact ⟨_, mem_of_queue_ne_nil (List.ne_nil_of_mem h), h⟩

/-- Two maps with the same queues are equal. -/
theorem ext_queue {m m' : FifoMap κ α} (h : WF m) (h' : WF m')
    (hq : ∀ a, queue a m = queue a m') : m = m' := by
  induction m generalizing m' with
  | nil =>
    cases m' with
    | nil => rfl
    | cons e m' =>
      have := hq e.1
      rw [queue_of_mem h' List.mem_cons_self] at this
      exact absurd this.symm (h'.nonempty e List.mem_cons_self)
  | cons e m ih =>
    obtain ⟨a, l⟩ := e
    cases m' with
    | nil =>
      have := hq a
      rw [queue_of_mem h List.mem_cons_self] at this
      exact absurd this (h.nonempty _ List.mem_cons_self)
    | cons e' m' =>
      obtain ⟨b, k⟩ := e'
      obtain ⟨hl, hma, hw⟩ := wf_cons.mp h
      obtain ⟨hk, hmb, hw'⟩ := wf_cons.mp h'
      have hab : a = b := by
        by_contra hne
        rcases lt_or_gt_of_ne hne with hlt | hlt
        · have hnil : queue a ((b, k) :: m') = [] := by
            refine queue_of_lt fun e he => ?_
            rcases List.mem_cons.mp he with rfl | he
            · exact hlt
            · exact hlt.trans (hmb e he)
          rw [← hq a, queue_of_mem h List.mem_cons_self] at hnil
          exact hl hnil
        · have hnil : queue b ((a, l) :: m) = [] := by
            refine queue_of_lt fun e he => ?_
            rcases List.mem_cons.mp he with rfl | he
            · exact hlt
            · exact hlt.trans (hma e he)
          rw [hq b, queue_of_mem h' List.mem_cons_self] at hnil
          exact hk hnil
      subst hab
      have hlk : l = k := by simpa [queue] using hq a
      subst hlk
      congr 1
      refine ih hw hw' fun c => ?_
      by_cases hac : a = c
      · subst hac
        rw [queue_of_lt hma, queue_of_lt hmb]
      · simpa [queue, hac] using hq c

end FifoMap
