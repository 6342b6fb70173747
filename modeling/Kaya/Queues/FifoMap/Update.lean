import Kaya.Queues.FifoMap

namespace FifoMap

variable {κ α : Type} [LinearOrder κ]

theorem mem_enqueue_key {a : κ} {x : α} {m : FifoMap κ α} {e : κ × List α}
    (h : e ∈ enqueue a x m) : e.1 = a ∨ ∃ e' ∈ m, e'.1 = e.1 := by
  induction m with
  | nil =>
    obtain rfl : e = (a, [x]) := by simpa [enqueue] using h
    exact Or.inl rfl
  | cons f m ih =>
    obtain ⟨b, l⟩ := f
    unfold enqueue at h
    split at h
    · rcases List.mem_cons.mp h with rfl | h
      · exact Or.inr ⟨_, List.mem_cons_self, rfl⟩
      · rcases ih h with h | ⟨e', he', h⟩
        · exact Or.inl h
        · exact Or.inr ⟨e', List.mem_cons_of_mem _ he', h⟩
    · split at h
      · rename_i hba
        rcases List.mem_cons.mp h with rfl | h
        · exact Or.inl hba
        · exact Or.inr ⟨e, List.mem_cons_of_mem _ h, rfl⟩
      · rcases List.mem_cons.mp h with rfl | h
        · exact Or.inl rfl
        · exact Or.inr ⟨e, h, rfl⟩

theorem WF.enqueue {a : κ} {x : α} {m : FifoMap κ α} (h : WF m) : WF (enqueue a x m) := by
  induction m with
  | nil => exact wf_cons.mpr ⟨by simp, by simp, WF.nil⟩
  | cons e m ih =>
    obtain ⟨b, l⟩ := e
    obtain ⟨hl, hb, hw⟩ := wf_cons.mp h
    unfold FifoMap.enqueue
    split
    · rename_i hba
      refine wf_cons.mpr ⟨hl, ?_, ih hw⟩
      intro e he
      rcases mem_enqueue_key he with hk | ⟨e', he', hk⟩
      · rwa [hk]
      · exact hk ▸ hb e' he'
    · split
      · exact wf_cons.mpr ⟨by simp, hb, hw⟩
      · rename_i hnlt hne
        have hab : a < b := lt_of_le_of_ne (not_lt.mp hnlt) (Ne.symm hne)
        refine wf_cons.mpr ⟨by simp, ?_, h⟩
        intro e he
        rcases List.mem_cons.mp he with rfl | he
        · exact hab
        · exact hab.trans (hb e he)

theorem queue_enqueue {a b : κ} {x : α} {m : FifoMap κ α} (h : WF m) :
    queue b (enqueue a x m) = if b = a then queue a m ++ [x] else queue b m := by
  induction m with
  | nil => simp only [enqueue, queue, eq_comm (a := a), List.nil_append]
  | cons e m ih =>
    obtain ⟨c, l⟩ := e
    obtain ⟨-, hc, hw⟩ := wf_cons.mp h
    unfold enqueue
    split
    · rename_i hca
      have hne : c ≠ a := hca.ne
      by_cases hcb : c = b
      · subst hcb
        simp [queue, hne]
      · simp [queue, hcb, hne, ih hw]
    · split
      · rename_i hca
        subst hca
        by_cases hcb : c = b
        · subst hcb
          simp [queue]
        · simp [queue, hcb, Ne.symm hcb]
      · rename_i hnlt hne
        have hac : a < c := lt_of_le_of_ne (not_lt.mp hnlt) (Ne.symm hne)
        have hnil : queue a m = [] := queue_of_lt fun e he => hac.trans (hc e he)
        by_cases hab : a = b
        · subst hab
          simp [queue, hne, hnil]
        · simp [queue, hab, Ne.symm hab]

theorem values_enqueue {a : κ} {x : α} {m : FifoMap κ α} :
    (values (enqueue a x m)).Perm (x :: values m) := by
  induction m with
  | nil => simp [enqueue, values]
  | cons e m ih =>
    obtain ⟨b, l⟩ := e
    unfold enqueue
    split
    · exact (ih.append_left l).trans List.perm_middle
    · split
      · simp only [values_cons, List.append_assoc, List.cons_append, List.nil_append]
        exact List.perm_middle
      · simp

theorem enqueue_append {a : κ} {x : α} {lo hi : FifoMap κ α} (h : ∀ e ∈ lo, e.1 < a) :
    enqueue a x (lo ++ hi) = lo ++ enqueue a x hi := by
  induction lo with
  | nil => rfl
  | cons e lo ih =>
    have he := h e List.mem_cons_self
    simp [enqueue, he, ih fun f hf => h f (List.mem_cons_of_mem _ hf)]

theorem queue_append {a : κ} {lo hi : FifoMap κ α} (h : ∀ e ∈ lo, e.1 < a) :
    queue a (lo ++ hi) = queue a hi := by
  induction lo with
  | nil => rfl
  | cons e lo ih =>
    have he := (h e List.mem_cons_self).ne
    simp [queue, he, ih fun f hf => h f (List.mem_cons_of_mem _ hf)]

theorem setQueue_append {a : κ} {q : List α} {lo hi : FifoMap κ α} (h : ∀ e ∈ lo, e.1 < a) :
    setQueue a q (lo ++ hi) = lo ++ setQueue a q hi := by
  induction lo with
  | nil => rfl
  | cons e lo ih =>
    have he := (h e List.mem_cons_self).ne
    simp [setQueue, he, ih fun f hf => h f (List.mem_cons_of_mem _ hf)]

theorem enqueue_cut_found {lo hi : FifoMap κ α} {a : κ} {x : α} {l : List α}
    (hlt : ∀ e ∈ lo, e.1 < a) :
    enqueue a x (lo ++ (a, l) :: hi) = lo ++ (a, l ++ [x]) :: hi := by
  rw [enqueue_append hlt]
  simp [enqueue]

theorem enqueue_cut_new {lo hi : FifoMap κ α} {a : κ} {x : α} (hlt : ∀ e ∈ lo, e.1 < a)
    (hgt : ∀ e ∈ hi, a < e.1) : enqueue a x (lo ++ hi) = lo ++ (a, [x]) :: hi := by
  rw [enqueue_append hlt]
  cases hi with
  | nil => rfl
  | cons e hi =>
    have he := hgt e List.mem_cons_self
    simp [enqueue, not_lt.mpr he.le, he.ne']

theorem setQueue_cut {lo hi : FifoMap κ α} {a : κ} {q l : List α} (hlt : ∀ e ∈ lo, e.1 < a) :
    setQueue a q (lo ++ (a, l) :: hi) = lo ++ if q.isEmpty then hi else (a, q) :: hi := by
  rw [setQueue_append hlt]
  simp [setQueue]

theorem mem_setQueue_key {a : κ} {q : List α} {m : FifoMap κ α} {e : κ × List α}
    (h : e ∈ setQueue a q m) : ∃ e' ∈ m, e'.1 = e.1 := by
  induction m with
  | nil => simp [setQueue] at h
  | cons f m ih =>
    obtain ⟨b, l⟩ := f
    unfold setQueue at h
    split at h
    · rename_i hba
      split at h
      · exact ⟨e, List.mem_cons_of_mem _ h, rfl⟩
      · rcases List.mem_cons.mp h with rfl | h
        · exact ⟨_, List.mem_cons_self, rfl⟩
        · exact ⟨e, List.mem_cons_of_mem _ h, rfl⟩
    · rcases List.mem_cons.mp h with rfl | h
      · exact ⟨_, List.mem_cons_self, rfl⟩
      · obtain ⟨e', he', hk⟩ := ih h
        exact ⟨e', List.mem_cons_of_mem _ he', hk⟩

theorem WF.setQueue {a : κ} {q : List α} {m : FifoMap κ α} (h : WF m) : WF (setQueue a q m) := by
  induction m with
  | nil => exact WF.nil
  | cons e m ih =>
    obtain ⟨b, l⟩ := e
    obtain ⟨hl, hb, hw⟩ := wf_cons.mp h
    unfold FifoMap.setQueue
    split
    · split
      · exact hw
      · rename_i hq
        exact wf_cons.mpr ⟨by simpa using hq, hb, hw⟩
    · refine wf_cons.mpr ⟨hl, ?_, ih hw⟩
      intro e he
      obtain ⟨e', he', hk⟩ := mem_setQueue_key he
      exact hk ▸ hb e' he'

theorem queue_setQueue {a b : κ} {q : List α} {m : FifoMap κ α} (h : WF m)
    (ha : queue a m ≠ []) : queue b (setQueue a q m) = if b = a then q else queue b m := by
  induction m with
  | nil => simp at ha
  | cons e m ih =>
    obtain ⟨c, l⟩ := e
    obtain ⟨-, hc, hw⟩ := wf_cons.mp h
    by_cases hca : c = a
    · subst hca
      by_cases hq : q = []
      · subst hq
        by_cases hbc : b = c
        · subst hbc
          simp [setQueue, queue_of_lt hc]
        · simp [setQueue, queue, hbc, Ne.symm hbc]
      · by_cases hbc : b = c
        · subst hbc
          simp [setQueue, queue, hq]
        · simp [setQueue, queue, hq, hbc, Ne.symm hbc]
    · rw [queue, if_neg hca] at ha
      by_cases hcb : c = b
      · subst hcb
        simp [setQueue, queue, hca]
      · simp [setQueue, queue, hca, hcb, ih hw ha]

/-- A key without a queue in between changes no queue. -/
theorem queue_insert_nil {a b : κ} {lo hi : FifoMap κ α} (hb : queue b hi = []) :
    queue a (lo ++ (b, []) :: hi) = queue a (lo ++ hi) := by
  induction lo with
  | nil =>
    by_cases hba : b = a
    · subst hba
      simp [queue, hb]
    · simp [queue, hba]
  | cons e lo ih => simp [queue, ih]

/-- The queue of the first key that is not below `a`. -/
def queueFrom (a : κ) (m : FifoMap κ α) : List α :=
  match m.find? (a ≤ ·.1) with
  | none => []
  | some e => e.2

theorem queueFrom_cut {a : κ} {lo hi : FifoMap κ α} (hlt : ∀ e ∈ lo, e.1 < a)
    (hge : ∀ e ∈ hi, a ≤ e.1) : queueFrom a (lo ++ hi) = (hi.head?.map (·.2)).getD [] := by
  have hlo : lo.find? (a ≤ ·.1) = none := by
    rw [List.find?_eq_none]
    intro e he
    simpa using hlt e he
  unfold queueFrom
  rw [List.find?_append, hlo, Option.none_or]
  cases hi with
  | nil => rfl
  | cons e hi => simp [hge e List.mem_cons_self]

theorem queueFrom_eq_queue {a : κ} {m : FifoMap κ α} (hm : WF m) (ha : queue a m ≠ []) :
    queueFrom a m = queue a m := by
  induction m with
  | nil => simp at ha
  | cons e m ih =>
    obtain ⟨b, l⟩ := e
    obtain ⟨-, hb, hw⟩ := wf_cons.mp hm
    by_cases hba : b = a
    · simp [queueFrom, queue, hba]
    · rw [queue, if_neg hba] at ha ⊢
      have hlt : b < a := hb _ (mem_of_queue_ne_nil ha)
      rw [← ih hw ha]
      simp [queueFrom, hlt.not_ge]

/-- No queue is found when every key is below `a`. -/
theorem queueFrom_eq_nil_iff {a : κ} {m : FifoMap κ α} (hm : WF m) :
    queueFrom a m = [] ↔ ∀ b, a ≤ b → queue b m = [] := by
  unfold queueFrom
  constructor
  · intro hnil b hab
    by_contra hb
    have hmem := mem_of_queue_ne_nil hb
    cases hfind : m.find? (a ≤ ·.1) with
    | none =>
      have hnot := List.find?_eq_none.mp hfind _ hmem
      simp [hab] at hnot
    | some e =>
      rw [hfind] at hnil
      exact hm.nonempty e (List.mem_of_find?_eq_some hfind) hnil
  · intro hall
    cases hfind : m.find? (a ≤ ·.1) with
    | none => rfl
    | some e =>
      have hmem := List.mem_of_find?_eq_some hfind
      have hle : a ≤ e.1 := by simpa using List.find?_some hfind
      show e.2 = []
      rw [← queue_of_mem hm hmem, hall e.1 hle]

end FifoMap
