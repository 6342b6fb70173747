import Kaya.Links.Segment

namespace Links

variable {ι : Type} {next prev next' prev' : ι → Ptr ι}

/-- `a` and `b` are neighbours of a doubly linked list. -/
def Linked (next prev : ι → Ptr ι) (a b : ι) : Prop :=
  next a = .to b ∧ prev b = .to a

/-- Forward links of all entries but the last and backward links of all entries
but the first are all that a doubly linked chain consists of. -/
theorem isChain_linked_congr {l : List ι} (h : l.IsChain (Linked next prev))
    (hnext : ∀ x ∈ l.dropLast, next' x = next x) (hprev : ∀ x ∈ l.tail, prev' x = prev x) :
    l.IsChain (Linked next' prev') := by
  induction l with
  | nil => simp
  | cons a l ih =>
    cases l with
    | nil => simp
    | cons b l =>
      rw [List.isChain_cons_cons] at h ⊢
      obtain ⟨⟨hab, hba⟩, hchain⟩ := h
      refine ⟨⟨?_, ?_⟩, ih hchain ?_ ?_⟩
      · rw [hnext a (by simp), hab]
      · rw [hprev b (by simp), hba]
      · intro x hx
        exact hnext x (by simp [hx])
      · intro x hx
        exact hprev x (List.mem_of_mem_tail hx)

theorem linked_of_isChain_append {l l' : List ι} {a b : ι}
    (h : (l ++ a :: b :: l').IsChain (Linked next prev)) : Linked next prev a b :=
  (List.isChain_append_cons_cons.mp h).2.1

theorem segment_of_isChain {l : List ι} {t : ι} (h : (l ++ [t]).IsChain (Linked next prev)) :
    Segment next (headPtr (l ++ [t])) l (.to t) := by
  induction l with
  | nil => rfl
  | cons x l ih =>
    refine ⟨rfl, ?_⟩
    have hnext : next x = headPtr (l ++ [t]) := by
      cases l with
      | nil => exact (List.isChain_cons_cons.mp h).1.1
      | cons y l => exact (List.isChain_cons_cons.mp h).1.1
    rw [hnext]
    exact ih h.tail

end Links
