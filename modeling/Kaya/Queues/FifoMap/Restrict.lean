import Kaya.Queues.FifoMap.Update
import Mathlib.Data.List.Flatten

namespace FifoMap

variable {κ α : Type}

theorem mem_restrict {keep : α → Bool} {m : FifoMap κ α} {e : κ × List α} :
    e ∈ restrict keep m ↔ e.2 ≠ [] ∧ ∃ e' ∈ m, e = (e'.1, e'.2.filter keep) := by
  simp only [restrict, List.mem_filter, List.mem_map, Bool.not_eq_eq_eq_not, Bool.not_true,
    List.isEmpty_eq_false_iff]
  constructor
  · rintro ⟨⟨e', he', rfl⟩, hne⟩
    exact ⟨hne, e', he', rfl⟩
  · rintro ⟨hne, e', he', rfl⟩
    exact ⟨⟨e', he', rfl⟩, hne⟩

theorem restrict_cons {keep : α → Bool} {a : κ} {l : List α} {m : FifoMap κ α} :
    restrict keep ((a, l) :: m) =
      if l.filter keep = [] then restrict keep m
      else (a, l.filter keep) :: restrict keep m := by
  by_cases h : l.filter keep = [] <;> simp [restrict, h]

theorem values_restrict {keep : α → Bool} {m : FifoMap κ α} :
    values (restrict keep m) = (values m).filter keep := by
  induction m with
  | nil => rfl
  | cons e m ih =>
    obtain ⟨a, l⟩ := e
    rw [restrict_cons, values_cons, List.filter_append, ← ih]
    split
    · rename_i h
      simp [h]
    · rfl

variable [LinearOrder κ]

theorem WF.restrict {keep : α → Bool} {m : FifoMap κ α} (h : WF m) : WF (restrict keep m) := by
  induction m with
  | nil => exact WF.nil
  | cons e m ih =>
    obtain ⟨a, l⟩ := e
    obtain ⟨-, ha, hw⟩ := wf_cons.mp h
    rw [restrict_cons]
    split
    · exact ih hw
    · rename_i hne
      refine wf_cons.mpr ⟨hne, ?_, ih hw⟩
      intro e he
      obtain ⟨-, e', he', rfl⟩ := mem_restrict.mp he
      exact ha e' he'

theorem queue_restrict {keep : α → Bool} {a : κ} {m : FifoMap κ α} (h : WF m) :
    queue a (FifoMap.restrict keep m) = (queue a m).filter keep := by
  induction m with
  | nil => rfl
  | cons e m ih =>
    obtain ⟨b, l⟩ := e
    obtain ⟨-, hb, hw⟩ := wf_cons.mp h
    rw [restrict_cons]
    by_cases hba : b = a
    · subst hba
      split
      · rename_i hnil
        have hq : queue b (FifoMap.restrict keep m) = [] := by
          rw [ih hw, queue_of_lt hb]
          rfl
        rw [hq]
        simp [queue, hnil]
      · simp [queue]
    · split
      · simp [queue, hba, ih hw]
      · simp [queue, hba, ih hw]

/-- Restricting twice keeps what both restrictions keep. -/
theorem restrict_restrict {keep keep' : α → Bool} {m : FifoMap κ α} (h : WF m) :
    FifoMap.restrict keep' (FifoMap.restrict keep m) =
      FifoMap.restrict (fun x => keep' x && keep x) m := by
  refine ext_queue h.restrict.restrict h.restrict fun a => ?_
  rw [queue_restrict h.restrict, queue_restrict h, queue_restrict h, List.filter_filter]

theorem restrict_eq_self {keep : α → Bool} {m : FifoMap κ α} (h : WF m)
    (hall : ∀ x ∈ values m, keep x) : FifoMap.restrict keep m = m := by
  refine ext_queue h.restrict h fun a => ?_
  rw [queue_restrict h, List.filter_eq_self]
  exact fun x hx => hall x (mem_values_of_mem_queue hx)

/-- In a map without repetitions an element is in one queue only. -/
theorem eq_of_mem_queue {x : α} {a b : κ} {m : FifoMap κ α} (h : WF m) (hnodup : (values m).Nodup)
    (ha : x ∈ queue a m) (hb : x ∈ queue b m) : a = b := by
  induction m with
  | nil => simp at ha
  | cons e m ih =>
    obtain ⟨c, l⟩ := e
    obtain ⟨-, -, hw⟩ := wf_cons.mp h
    rw [values_cons, List.nodup_append] at hnodup
    obtain ⟨-, hnd, hdisj⟩ := hnodup
    by_cases hca : c = a <;> by_cases hcb : c = b
    · exact hca.symm.trans hcb
    · rw [queue, if_pos hca] at ha
      rw [queue, if_neg hcb] at hb
      exact absurd rfl (hdisj x ha x (mem_values_of_mem_queue hb))
    · rw [queue, if_neg hca] at ha
      rw [queue, if_pos hcb] at hb
      exact absurd rfl (hdisj x hb x (mem_values_of_mem_queue ha))
    · rw [queue, if_neg hca] at ha
      rw [queue, if_neg hcb] at hb
      exact ih hw hnd ha hb

/-- Taking an element out of its queue is restricting the map to the others. -/
theorem setQueue_erase [DecidableEq α] {x : α} {a : κ} {m : FifoMap κ α} (h : WF m)
    (hnodup : (values m).Nodup) (hx : x ∈ queue a m) :
    setQueue a ((queue a m).erase x) m = FifoMap.restrict (fun y => y ≠ x) m := by
  refine ext_queue h.setQueue h.restrict fun b => ?_
  rw [queue_setQueue h (List.ne_nil_of_mem hx), queue_restrict h]
  have hndq : ∀ c, (queue c m).Nodup := by
    intro c
    by_cases hc : queue c m = []
    · simp [hc]
    · exact (List.nodup_flatMap.mp hnodup).1 _ (mem_of_queue_ne_nil hc)
  split
  · rename_i hba
    rw [hba, (hndq a).erase_eq_filter]
    simp [bne, BEq.beq]
  · rename_i hba
    symm
    rw [List.filter_eq_self]
    intro y hy
    simp only [ne_eq, decide_not, Bool.not_eq_eq_eq_not, Bool.not_true, decide_eq_false_iff_not]
    rintro rfl
    exact hba (eq_of_mem_queue h hnodup hy hx)

end FifoMap
