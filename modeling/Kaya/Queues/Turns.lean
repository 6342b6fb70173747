import Mathlib.Data.List.Basic
import Mathlib.Data.List.Nodup

/-! Queues that entries leave at any place, with new entries at the end and the
head taken now and then. -/

namespace Turns

variable {α : Type} [DecidableEq α] {l l' kept new : List α} {taken : Option α} {x : α}
  {ts : List (Option α × List α)}

/-- The entries in front of `x`. -/
def ahead (x : α) (l : List α) : List α := l.takeWhile (· ≠ x)

/-- One turn of a queue: the entries of `kept` stay, those of `new` are appended,
and then the head may be taken. -/
structure Turn (l kept new : List α) (taken : Option α) (l' : List α) : Prop where
  sublist : kept.Sublist l
  stays : ∀ x ∈ l, x ∈ l' → x ∈ kept
  queue : kept ++ new = taken.toList ++ l'
  nodup : (kept ++ new).Nodup

/-- Turns of a queue, each with the entry it takes and the queue it leaves. -/
inductive Run : List α → List (Option α × List α) → List α → Prop where
  | nil {l : List α} : Run l [] l
  | cons {l l' l'' kept new : List α} {taken : Option α} {ts : List (Option α × List α)} :
      Turn l kept new taken l' → Run l' ts l'' → Run l ((taken, l') :: ts) l''

omit [DecidableEq α] in
theorem Turn.nodup_after (h : Turn l kept new taken l') : l'.Nodup := by
  have hnodup := h.nodup
  rw [h.queue] at hnodup
  exact (List.nodup_append.mp hnodup).2.1

omit [DecidableEq α] in
theorem Turn.not_mem_after (h : Turn l kept new taken l') (hx : x ∈ taken) : x ∉ l' := by
  obtain rfl : taken = some x := hx
  have hnodup := h.nodup
  rw [h.queue] at hnodup
  exact (List.nodup_cons.mp hnodup).1

@[simp] theorem ahead_cons_self (x : α) (l : List α) : ahead x (x :: l) = [] := by
  simp [ahead]

theorem ahead_cons_of_ne {y : α} (hy : y ≠ x) : ahead x (y :: l) = y :: ahead x l := by
  simp [ahead, hy]

theorem mem_of_mem_ahead {y : α} (hy : y ∈ ahead x l) : y ∈ l :=
  (List.takeWhile_sublist _).subset hy

theorem not_mem_ahead : x ∉ ahead x l := by
  induction l with
  | nil => simp [ahead]
  | cons y l ih =>
    by_cases hy : y = x
    · simp [hy]
    · rw [ahead_cons_of_ne hy, List.mem_cons, not_or]
      exact ⟨Ne.symm hy, ih⟩

theorem ahead_append (hx : x ∈ l) (l' : List α) : ahead x (l ++ l') = ahead x l := by
  induction l with
  | nil => simp at hx
  | cons y l ih =>
    by_cases hy : y = x
    · simp [hy]
    · have hx' : x ∈ l := (List.mem_cons.mp hx).resolve_left (Ne.symm hy)
      rw [List.cons_append, ahead_cons_of_ne hy, ahead_cons_of_ne hy, ih hx']

/-- What is left of a queue is left of the entries in front of `x`. -/
theorem ahead_sublist (hsub : kept.Sublist l) (hl : l.Nodup) (hx : x ∈ kept) :
    (ahead x kept).Sublist (ahead x l) := by
  induction hsub with
  | slnil => simp at hx
  | @cons kept l y hsub ih =>
    have hy : y ≠ x := by
      rintro rfl
      exact (List.nodup_cons.mp hl).1 (hsub.subset hx)
    rw [ahead_cons_of_ne hy]
    exact (ih (List.nodup_cons.mp hl).2 hx).cons y
  | @cons_cons kept l y hsub ih =>
    by_cases hy : y = x
    · simp [hy]
    · have hx' : x ∈ kept := (List.mem_cons.mp hx).resolve_left (Ne.symm hy)
      rw [ahead_cons_of_ne hy, ahead_cons_of_ne hy]
      exact (ih (List.nodup_cons.mp hl).2 hx').cons_cons y

/-- While `x` waits, only entries in front of it are taken, and nobody gets there. -/
theorem Turn.ahead_sublist (h : Turn l kept new taken l') (hl : l.Nodup) (hx : x ∈ l)
    (hx' : x ∈ l') : (taken.toList ++ ahead x l').Sublist (ahead x l) := by
  have hkept := h.stays x hx hx'
  have htaken : taken.toList ++ ahead x l' = ahead x (taken.toList ++ l') := by
    cases taken with
    | none => rfl
    | some y =>
      have hy : y ≠ x := by
        rintro rfl
        exact h.not_mem_after rfl hx'
      simp [ahead, hy]
  rw [htaken, ← h.queue, ahead_append hkept]
  exact Turns.ahead_sublist h.sublist hl hkept

theorem Run.ahead_sublist (h : Run l ts l') (hl : l.Nodup) (hx : x ∈ l)
    (hwaits : ∀ t ∈ ts, x ∈ t.2) :
    (ts.filterMap Prod.fst ++ ahead x l').Sublist (ahead x l) := by
  induction h with
  | nil => exact List.Sublist.refl _
  | @cons l l₁ l' kept new taken ts hturn _ ih =>
    have hx₁ : x ∈ l₁ := hwaits (taken, l₁) List.mem_cons_self
    have hrest := ih hturn.nodup_after hx₁ fun t ht => hwaits t (List.mem_cons_of_mem _ ht)
    have hfirst := hturn.ahead_sublist hl hx hx₁
    have htaken : ((taken, l₁) :: ts).filterMap Prod.fst =
        taken.toList ++ ts.filterMap Prod.fst := by
      cases taken <;> rfl
    rw [htaken, List.append_assoc]
    exact (List.Sublist.append_left hrest _).trans hfirst

/-- As long as `x` is in the queue, no entry is taken twice. -/
theorem Run.nodup_taken (h : Run l ts l') (hwaits : ∀ t ∈ ts, x ∈ t.2) :
    (ts.filterMap Prod.fst).Nodup ∧ x ∉ ts.filterMap Prod.fst := by
  cases h with
  | nil => simp
  | @cons _ l₁ _ kept new taken ts hturn hrun =>
    have hx₁ : x ∈ l₁ := hwaits (taken, l₁) List.mem_cons_self
    have hrest := hrun.ahead_sublist hturn.nodup_after hx₁ fun t ht =>
      hwaits t (List.mem_cons_of_mem _ ht)
    have htaken : ts.filterMap Prod.fst ⊆ ahead x l₁ := fun y hy =>
      hrest.subset (List.mem_append_left _ hy)
    have hnodup : (ts.filterMap Prod.fst).Nodup := by
      refine ((List.sublist_append_left _ _).trans hrest).nodup ?_
      exact (List.takeWhile_sublist _).nodup hturn.nodup_after
    have hx : x ∉ ts.filterMap Prod.fst := fun hx => not_mem_ahead (htaken hx)
    cases taken with
    | none => exact ⟨hnodup, hx⟩
    | some y =>
      have hy : y ∉ l₁ := hturn.not_mem_after rfl
      refine ⟨List.nodup_cons.mpr ⟨fun hmem => hy (mem_of_mem_ahead (htaken hmem)), hnodup⟩, ?_⟩
      rintro hmem
      rcases List.mem_cons.mp hmem with rfl | hmem
      · exact hy hx₁
      · exact hx hmem

end Turns
