import Kaya.Phase1.Search

open Links

namespace Kaya

section

variable {h h' : Heap} {ids fr behind c : List Sid} {m lo hi : FifoMap Word Pid} {a : Word}
  {w i : Sid} {e : Word × List Pid} {l : List Pid} {tp : PcbPtr}

theorem Cut.ids_split (hcut : Cut h semdZero ids m a c w behind lo hi) :
    ids = (c ++ [w]).tail ++ behind := by
  have htail := congrArg List.tail hcut.ids_eq
  rw [List.tail_cons] at htail
  rw [htail]
  cases c <;> simp

theorem Cut.zero_cons (hcut : Cut h semdZero ids m a c w behind lo hi) :
    semdZero :: (c ++ [w]).tail = c ++ [w] := by
  have hhead := congrArg List.head? hcut.ids_eq
  cases c with
  | nil =>
    obtain rfl : semdZero = w := by simpa using hhead
    rfl
  | cons z c =>
    obtain rfl : semdZero = z := by simpa using hhead
    rfl

theorem AslRep.nodup_cut (hasl : AslRep h ids fr m)
    (hcut : Cut h semdZero ids m a c w behind lo hi) : (c ++ w :: behind).Nodup := by
  rw [← hcut.ids_eq, List.nodup_cons]
  refine ⟨fun hmem => ?_, (List.nodup_append.mp hasl.nodup).1⟩
  exact ((hasl.cover _).mp (List.mem_append_left _ hmem)).1 rfl

theorem AslRep.ne_dummy (hasl : AslRep h ids fr m) (hi : i ∈ ids ++ fr) :
    i ≠ semdZero ∧ i ≠ semdMax :=
  (hasl.cover i).mp hi

/-- A descriptor of the free list is not an active one. -/
theorem AslRep.free_not_mem_cut (hasl : AslRep h ids fr m)
    (hcut : Cut h semdZero ids m a c w behind lo hi) (hi : i ∈ fr) : i ∉ c ++ w :: behind := by
  rw [← hcut.ids_eq, List.mem_cons, not_or]
  refine ⟨(hasl.ne_dummy (List.mem_append_right _ hi)).1, fun hmem => ?_⟩
  exact (List.nodup_append.mp hasl.nodup).2.2 i hmem i hi rfl

/-- The queue of one active descriptor is replaced. -/
theorem AslRep.setEntry (hasl : AslRep h ids fr m)
    (hcut : Cut h semdZero ids m a c w (i :: behind) lo (e :: hi))
    (hring : Ring h'.pcb_next h'.pcb_prev tp l)
    (hlinks : ∀ x ∈ FifoMap.values lo ++ FifoMap.values hi,
      h'.pcb_next x = h.pcb_next x ∧ h'.pcb_prev x = h.pcb_prev x)
    (hactive : h'.semdActive_h = h.semdActive_h) (hfree : h'.semdFree_h = h.semdFree_h)
    (hnext : h'.s_next = h.s_next) (hkeys : h'.s_semAdd = h.s_semAdd)
    (hprocQ : h'.s_procQ = Function.update h.s_procQ i tp) :
    AslRep h' ids fr (lo ++ (e.1, l) :: hi) := by
  have hsplit := hcut.ids_split
  have hnodup := hasl.nodup_cut hcut
  have hmem : i ∈ ids := by simp [hsplit]
  obtain ⟨hzero, hmax⟩ := hasl.ne_dummy (List.mem_append_left _ hmem)
  have hother : ∀ j ∈ (c ++ [w]).tail ++ behind, h'.s_procQ j = h.s_procQ j := by
    intro j hj
    have hne : j ≠ i := by
      rintro rfl
      have hids := (List.nodup_append.mp hasl.nodup).1
      rw [hsplit, List.nodup_append] at hids
      rcases List.mem_append.mp hj with hj | hj
      · exact hids.2.2 j hj j List.mem_cons_self rfl
      · exact (List.nodup_cons.mp hids.2.1).1 hj
    simp [hprocQ, hne]
  refine ⟨hactive.trans hasl.head, ?_, ?_, hasl.nodup, hasl.cover, ?_, ?_, ?_⟩
  · rw [hnext]
    exact hasl.active
  · rw [hnext, hfree]
    exact hasl.free
  · rw [hkeys]
    exact hasl.keys
  · simpa [hprocQ, hzero.symm, hmax.symm] using hasl.noProcs
  · rw [hsplit]
    cases hcut.after with
    | cons hie hafter =>
      refine List.rel_append ?_ (List.Forall₂.cons ?_ ?_)
      · refine Heap.entries_congr hcut.before (fun j hj => ⟨by rw [hkeys], ?_⟩) ?_
        · exact hother j (List.mem_append_left _ hj)
        · exact fun x hx => hlinks x (List.mem_append_left _ hx)
      · refine ⟨by rw [hkeys]; exact hie.1, ?_⟩
        rw [hprocQ, Function.update_self]
        exact hring
      · refine Heap.entries_congr hafter (fun j hj => ⟨by rw [hkeys], ?_⟩) ?_
        · exact hother j (List.mem_append_right _ hj)
        · exact fun x hx => hlinks x (List.mem_append_right _ hx)

/-- A free descriptor becomes active at the cut. -/
theorem AslRep.insertEntry {b : Word} (hasl : AslRep h ids (i :: fr) m)
    (hcut : Cut h semdZero ids m a c w behind lo hi)
    (hring : Ring h'.pcb_next h'.pcb_prev tp l)
    (hlinks : ∀ x ∈ FifoMap.values m,
      h'.pcb_next x = h.pcb_next x ∧ h'.pcb_prev x = h.pcb_prev x)
    (hactive : h'.semdActive_h = h.semdActive_h) (hfree : h'.semdFree_h = h.s_next i)
    (hnext : h'.s_next = Function.update (Function.update h.s_next i (nodePtr behind)) w (.to i))
    (hkeys : h'.s_semAdd = Function.update h.s_semAdd i b)
    (hprocQ : h'.s_procQ = Function.update h.s_procQ i tp) :
    AslRep h' ((c ++ [w]).tail ++ i :: behind) fr (lo ++ (b, l) :: hi) := by
  have hsplit := hcut.ids_split
  have hnodup := hasl.nodup_cut hcut
  have hfresh : i ∉ c ++ w :: behind := hasl.free_not_mem_cut hcut List.mem_cons_self
  have hmem : i ∈ ids ++ i :: fr := by simp
  obtain ⟨hzero, hmax⟩ := hasl.ne_dummy hmem
  have hperm : ((c ++ [w]).tail ++ i :: behind ++ fr).Perm (ids ++ i :: fr) := by
    rw [hsplit, List.append_assoc, List.append_assoc, List.cons_append]
    exact (List.perm_middle.symm).append_left _
  obtain ⟨hwbehind, hwc⟩ : w ∉ behind ∧ w ∉ c := by
    simp only [List.nodup_append, List.nodup_cons] at hnodup
    exact ⟨hnodup.2.1.1, fun hw => hnodup.2.2 w hw w List.mem_cons_self rfl⟩
  simp only [List.mem_append, List.mem_cons, not_or] at hfresh
  obtain ⟨hic, hiw, hibehind⟩ := hfresh
  have hactive' := hasl.active
  rw [hcut.ids_eq] at hactive'
  refine ⟨hactive.trans hasl.head, ?_, ?_, hperm.nodup_iff.mpr hasl.nodup, ?_, ?_, ?_, ?_⟩
  · rw [← List.cons_append, hcut.zero_cons, hnext]
    refine segment_append.mpr ⟨.to i, ?_, rfl, ?_⟩
    · have hfirst := hactive'.redirect (r := .to i) hwc
      refine hfirst.congr fun x hx => ?_
      have hxi : x ≠ i := by
        rintro rfl
        rcases List.mem_append.mp hx with hx | hx
        · exact hic hx
        · exact hiw (List.mem_singleton.mp hx)
      by_cases hxw : x = w
      · simp [hxw]
      · simp [hxw, hxi]
    · have hrest := hactive'.of_append_cons
      rw [hcut.next] at hrest
      have hi : Function.update (Function.update h.s_next i (nodePtr behind)) w (.to i) i =
          nodePtr behind := by simp [hiw]
      rw [hi]
      refine hrest.congr fun x hx => ?_
      have hxi : x ≠ i := fun heq => hibehind (heq ▸ hx)
      have hxw : x ≠ w := fun heq => hwbehind (heq ▸ hx)
      simp [hxi, hxw]
  · rw [hfree, hnext]
    refine hasl.free.2.congr fun x hx => ?_
    have hxi : x ≠ i := by
      rintro rfl
      exact (List.nodup_cons.mp (List.nodup_append.mp hasl.nodup).2.1).1 hx
    have hxw : x ≠ w := by
      rintro rfl
      have := hasl.free_not_mem_cut hcut (List.mem_cons_of_mem _ hx)
      simp at this
    simp [hxi, hxw]
  · intro j
    rw [hperm.mem_iff]
    exact hasl.cover j
  · simpa [hkeys, hzero.symm, hmax.symm] using hasl.keys
  · simpa [hprocQ, hzero.symm, hmax.symm] using hasl.noProcs
  · have hother : ∀ j ∈ (c ++ [w]).tail ++ behind,
        h'.s_semAdd j = h.s_semAdd j ∧ h'.s_procQ j = h.s_procQ j := by
      intro j hj
      have hne : j ≠ i := by
        rintro rfl
        exact (List.nodup_append.mp hasl.nodup).2.2 j (hsplit ▸ hj) j List.mem_cons_self rfl
      simp [hkeys, hprocQ, hne]
    have hvalues := hcut.map_eq ▸ hlinks
    simp only [FifoMap.values, List.flatMap_append, List.mem_append] at hvalues
    refine List.rel_append ?_ (List.Forall₂.cons ⟨by simp [hkeys], ?_⟩ ?_)
    · exact Heap.entries_congr hcut.before (fun j hj => hother j (List.mem_append_left _ hj))
        (fun x hx => hvalues x (Or.inl hx))
    · rw [hprocQ, Function.update_self]
      exact hring
    · exact Heap.entries_congr hcut.after (fun j hj => hother j (List.mem_append_right _ hj))
        (fun x hx => hvalues x (Or.inr hx))

/-- The descriptor behind the cut leaves the active list for the free list. -/
theorem AslRep.dropEntry (hasl : AslRep h ids fr m)
    (hcut : Cut h semdZero ids m a c w (i :: behind) lo (e :: hi))
    (hlinks : ∀ x ∈ FifoMap.values lo ++ FifoMap.values hi,
      h'.pcb_next x = h.pcb_next x ∧ h'.pcb_prev x = h.pcb_prev x)
    (hactive : h'.semdActive_h = h.semdActive_h) (hfree : h'.semdFree_h = .to i)
    (hnext : h'.s_next =
      Function.update (Function.update h.s_next w (h.s_next i)) i h.semdFree_h)
    (hkeys : h'.s_semAdd = Function.update h.s_semAdd i NULL)
    (hprocQ : h'.s_procQ = Function.update h.s_procQ i .null) :
    AslRep h' ((c ++ [w]).tail ++ behind) (i :: fr) (lo ++ hi) := by
  have hsplit := hcut.ids_split
  have hnodup := hasl.nodup_cut hcut
  have hmem : i ∈ ids := by simp [hsplit]
  obtain ⟨hzero, hmax⟩ := hasl.ne_dummy (List.mem_append_left _ hmem)
  have hperm : ((c ++ [w]).tail ++ behind ++ i :: fr).Perm (ids ++ fr) := by
    rw [hsplit, List.append_assoc, List.append_assoc, List.cons_append]
    exact List.perm_middle.append_left _
  simp only [List.nodup_append, List.nodup_cons, List.mem_cons, not_or] at hnodup
  obtain ⟨hc, ⟨⟨hwi, hwbehind⟩, hib, hbehind⟩, hdisj⟩ := hnodup
  have hwc : w ∉ c := fun hw => hdisj w hw w (Or.inl rfl) rfl
  have hic : i ∉ c := fun hw => hdisj i hw i (Or.inr (Or.inl rfl)) rfl
  have hactive' := hasl.active
  rw [hcut.ids_eq] at hactive'
  refine ⟨hactive.trans hasl.head, ?_, ?_, hperm.nodup_iff.mpr hasl.nodup, ?_, ?_, ?_, ?_⟩
  · rw [← List.cons_append, hcut.zero_cons, hnext]
    have hrest := hactive'.of_append_cons
    refine segment_append.mpr ⟨h.s_next i, ?_, ?_⟩
    · have hfirst := hactive'.redirect (r := h.s_next i) hwc
      refine hfirst.congr fun x hx => ?_
      have hxi : x ≠ i := by
        rintro rfl
        rcases List.mem_append.mp hx with hx | hx
        · exact hic hx
        · exact hwi (List.mem_singleton.mp hx).symm
      simp [hxi]
    · refine hrest.2.congr fun x hx => ?_
      have hxi : x ≠ i := fun heq => hib (heq ▸ hx)
      have hxw : x ≠ w := fun heq => hwbehind (heq ▸ hx)
      simp [hxi, hxw]
  · refine ⟨hfree, ?_⟩
    rw [hnext, Function.update_self]
    refine hasl.free.congr fun x hx => ?_
    have hnot := hasl.free_not_mem_cut hcut hx
    simp only [List.mem_append, List.mem_cons, not_or] at hnot
    simp [hnot.2.1, hnot.2.2.1]
  · intro j
    rw [hperm.mem_iff]
    exact hasl.cover j
  · simpa [hkeys, hzero.symm, hmax.symm] using hasl.keys
  · simpa [hprocQ, hzero.symm, hmax.symm] using hasl.noProcs
  · have hother : ∀ j ∈ (c ++ [w]).tail ++ behind,
        h'.s_semAdd j = h.s_semAdd j ∧ h'.s_procQ j = h.s_procQ j := by
      intro j hj
      have hne : j ≠ i := by
        rintro rfl
        have hids := (List.nodup_append.mp hasl.nodup).1
        rw [hsplit, List.nodup_append] at hids
        rcases List.mem_append.mp hj with hj | hj
        · exact hids.2.2 j hj j List.mem_cons_self rfl
        · exact hib hj
      simp [hkeys, hprocQ, hne]
    cases hcut.after with
    | cons _ hafter =>
      refine List.rel_append ?_ ?_
      · exact Heap.entries_congr hcut.before (fun j hj => hother j (List.mem_append_left _ hj))
          (fun x hx => hlinks x (List.mem_append_left _ hx))
      · exact Heap.entries_congr hafter (fun j hj => hother j (List.mem_append_right _ hj))
          (fun x hx => hlinks x (List.mem_append_right _ hx))

end

end Kaya
