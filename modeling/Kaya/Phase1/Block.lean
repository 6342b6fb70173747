import Kaya.Phase1.Entries

open Links

namespace Kaya

variable {h : Heap} {q : Queues} {p : Pid} {a : Word} {ids fr behind c : List Sid} {w : Sid}
  {m lo hi : FifoMap Word Pid}

/-- A pcb that is in no queue leaves a free descriptor over. -/
theorem AslRep.exists_free (hasl : AslRep h ids fr m) (hm : FifoMap.WF m)
    (hvalues : (FifoMap.values m).Nodup) (hp : p ∉ FifoMap.values m) :
    ∃ i rest, fr = i :: rest := by
  cases hfr : fr with
  | cons i rest => exact ⟨i, rest, rfl⟩
  | nil =>
    have hids : ids.length = MAXPROC := by simpa [hfr] using hasl.length_eq
    have hlen : ∀ m : FifoMap Word Pid, (∀ e ∈ m, e.2 ≠ []) →
        m.length ≤ (FifoMap.values m).length := by
      intro m hm
      induction m with
      | nil => simp
      | cons e m ih =>
        have hpos : 0 < e.2.length := List.length_pos_of_ne_nil (hm e List.mem_cons_self)
        have := ih fun e' he' => hm e' (List.mem_cons_of_mem _ he')
        rw [FifoMap.values_cons, List.length_append, List.length_cons]
        omega
    have hshort := hlen m hm.nonempty
    have hsame : ids.length = m.length := hasl.entries.length_eq
    have hcard := nodup_length_le (List.nodup_cons.mpr ⟨hp, hvalues⟩)
    rw [List.length_cons] at hcard
    omega

/-- The active list of `h'` holds `m`, and otherwise only `pcb_semAdd` and the queue
links of the pcbs in `l` differ from `h`. -/
structure Heap.AslBecomes (h h' : Heap) (m : FifoMap Word Pid) (semAdd : Pid → Word)
    (l : List Pid) : Prop where
  asl : ∃ ids fr, AslRep h' ids fr m
  semAdd : h'.pcb_semAdd = semAdd
  links : h.LinksOff h'.pcb_next h'.pcb_prev l
  tail : h'.s_next semdMax = h.s_next semdMax
  rest : h' = { h with
    pcb_next := h'.pcb_next, pcb_prev := h'.pcb_prev, pcb_semAdd := h'.pcb_semAdd,
    s_next := h'.s_next, s_semAdd := h'.s_semAdd, s_procQ := h'.s_procQ,
    semdFree_h := h'.semdFree_h, semdActive_h := h'.semdActive_h }

theorem Heap.AslBecomes.mono {h' : Heap} {semAdd : Pid → Word} {l l' : List Pid}
    (hasl : h.AslBecomes h' m semAdd l) (hl : l ⊆ l') : h.AslBecomes h' m semAdd l' :=
  { hasl with links := fun x hx => hasl.links x fun hmem => hx (hl hmem) }

/-- What becomes of the active list becomes of the queues that the heap holds. -/
theorem Represents.with_asl {h' : Heap} {semAdd : Pid → Word} {l : List Pid}
    (hrep : Represents h q) (hasl : h.AslBecomes h' m semAdd l)
    (hl : ∀ x ∈ l, x ∉ q.free ∧ x ∉ q.ready) :
    Represents h' { q with asl := m, semAdd := semAdd } := by
  have hfree : ∀ x ∈ q.free, x ∉ l := fun x hx hmem => (hl x hmem).1 hx
  have hready : ∀ x ∈ q.ready, x ∉ l := fun x hx hmem => (hl x hmem).2 hx
  obtain ⟨hasl, hsemAdd, hoff, -, hsame⟩ := hasl
  refine ⟨?_, ?_, hasl, ?_, ?_, ?_, hsemAdd, ?_, ?_⟩
  · rw [show h'.pcb_FREE_h = h.pcb_FREE_h by rw [hsame]]
    exact hrep.free.congr fun x hx => (hoff x (hfree x hx)).1
  · rw [show h'.readyQueue = h.readyQueue by rw [hsame]]
    exact hrep.ready.congr (fun x hx => (hoff x (hready x hx)).1)
      (fun x hx => (hoff x (hready x hx)).2)
  · rw [hsame]
    exact hrep.children
  · rw [hsame]
    exact hrep.parent
  · rw [hsame]
    exact hrep.roots
  · rw [hsame]
    exact hrep.states
  · rw [hsame]
    exact hrep.rom

theorem Cut.gt_of_key_ne (hm : FifoMap.WF m) (hcut : Cut h semdZero ids m a c w behind lo hi)
    (hkey : nextKey hi ≠ a) : ∀ e ∈ hi, a < e.1 := by
  intro e he
  cases hi with
  | nil => simp at he
  | cons e' hi =>
    have hlt : a < e'.1 := lt_of_le_of_ne (hcut.ge e' List.mem_cons_self) (Ne.symm hkey)
    rcases List.mem_cons.mp he with rfl | he
    · exact hlt
    · have hsorted := hm.sorted
      rw [hcut.map_eq, List.pairwise_append, List.pairwise_cons] at hsorted
      exact hlt.trans (hsorted.2.1.1 e he)

/-- The descriptor before the cut is not the dummy node at the end. -/
theorem AslRep.cut_ne_semdMax (hasl : AslRep h ids fr m)
    (hcut : Cut h semdZero ids m a c w behind lo hi) : w ≠ semdMax := by
  have hmem : w ∈ semdZero :: ids := by simp [hcut.ids_eq]
  rcases List.mem_cons.mp hmem with rfl | hmem
  · decide
  · exact (hasl.ne_dummy (List.mem_append_left _ hmem)).2

/-- `insertBlocked` for a semaphore that is active. -/
theorem AslRep.insertBlocked_found (hasl : AslRep h ids fr m)
    (hvalues : (FifoMap.values m).Nodup) (hp : p ∉ FifoMap.values m) {l : List Pid}
    (hcut : Cut h semdZero ids m a c w behind lo ((a, l) :: hi))
    (hsearch : (searchASL a).run h = .ok (.to w) h) :
    ∃ h', (insertBlocked a (.to p)).run h = .ok false h' ∧
      h.AslBecomes h' (FifoMap.enqueue a p m) (Function.update h.pcb_semAdd p a)
        (p :: FifoMap.values m) := by
  cases hcut.after with
  | @cons i _ behind _ hie _ =>
    have hsplit : FifoMap.values m = FifoMap.values lo ++ (l ++ FifoMap.values hi) := by
      rw [hcut.map_eq]
      simp [FifoMap.values]
    obtain ⟨hplo, hpl, hphi⟩ : p ∉ FifoMap.values lo ∧ p ∉ l ∧ p ∉ FifoMap.values hi := by
      simpa [hsplit] using hp
    rw [hsplit, List.nodup_append, List.nodup_append] at hvalues
    obtain ⟨-, ⟨-, -, hlhi⟩, hlo⟩ := hvalues
    let h1 := Heap.putSemAdd p a h
    have hring : Ring h1.pcb_next h1.pcb_prev (h1.s_procQ i) l := hie.2
    obtain ⟨next, prev, hins, hring', hoff⟩ := insertProcQ_spec hring hpl
    refine ⟨Heap.putSProcQ i (.to p) (h1.withLinks next prev), ?_, ?_⟩
    · have hkey : h.s_semAdd i = a := hie.1
      have hins' : (insertProcQ ((Heap.putSemAdd p a h).s_procQ i) (.to p)).run
          (Heap.putSemAdd p a h) = .ok (.to p) (h1.withLinks next prev) := hins
      simp only [insertBlocked, EStateM.run_bind, hsearch, run_load_to, hcut.next, nodePtr, hkey,
        if_true, run_store_to, hins', EStateM.run_pure]
    · have hentry : AslRep (Heap.putSProcQ i (.to p) (h1.withLinks next prev)) ids fr
          (lo ++ (a, l ++ [p]) :: hi) := by
        refine hasl.setEntry hcut hring' ?_ rfl rfl rfl rfl rfl
        intro x hx
        refine hoff x ?_
        rw [List.mem_cons, not_or]
        rcases List.mem_append.mp hx with hx | hx
        · exact ⟨fun heq => hplo (heq ▸ hx),
            fun hxl => hlo x hx x (List.mem_append_left _ hxl) rfl⟩
        · exact ⟨fun heq => hphi (heq ▸ hx), fun hxl => hlhi x hxl x hx rfl⟩
      have hmap : FifoMap.enqueue a p m = lo ++ (a, l ++ [p]) :: hi := by
        rw [hcut.map_eq, FifoMap.enqueue_cut_found hcut.lt]
      rw [hmap]
      refine ⟨⟨ids, fr, hentry⟩, rfl, fun x hx => hoff x ?_, rfl, rfl⟩
      intro hmem
      rcases List.mem_cons.mp hmem with rfl | hmem
      · exact hx List.mem_cons_self
      · exact hx (List.mem_cons_of_mem _ (by simp [hsplit, hmem]))

/-- `insertBlocked` for a semaphore that is not active takes a free descriptor. -/
theorem AslRep.insertBlocked_new {i : Sid} (hasl : AslRep h ids (i :: fr) m) (hm : FifoMap.WF m)
    (hp : p ∉ FifoMap.values m) (hcut : Cut h semdZero ids m a c w behind lo hi)
    (hkey : nextKey hi ≠ a) (hsearch : (searchASL a).run h = .ok (.to w) h) :
    ∃ h', (insertBlocked a (.to p)).run h = .ok false h' ∧
      h.AslBecomes h' (FifoMap.enqueue a p m) (Function.update h.pcb_semAdd p a) [p] := by
  have hload := load_nodePtr hcut.after hasl.keys.2
  have hgt : ∀ e ∈ hi, a < e.1 := hcut.gt_of_key_ne hm hkey
  have hfresh := hasl.free_not_mem_cut hcut List.mem_cons_self
  simp only [List.mem_append, List.mem_cons, not_or] at hfresh
  have hiw : w ≠ i := Ne.symm hfresh.2.1
  have himax : i ≠ semdMax := (hasl.ne_dummy (by simp)).2
  obtain ⟨hfreeHead, -⟩ := hasl.free
  refine ⟨{ h with
    pcb_next := Function.update h.pcb_next p (.to p)
    pcb_prev := Function.update h.pcb_prev p (.to p)
    pcb_semAdd := Function.update h.pcb_semAdd p a
    s_next := Function.update (Function.update h.s_next i (nodePtr behind)) w (.to i)
    s_semAdd := Function.update h.s_semAdd i a
    s_procQ := Function.update h.s_procQ i (.to p)
    semdFree_h := h.s_next i }, ?_, ?_⟩
  · simp [insertBlocked, hsearch, hcut.next, hload, hkey, allocSemd, hfreeHead, Heap.putSNext,
      Heap.putSSemAdd, Heap.putSProcQ, Heap.putSemAdd, hiw, mkEmptyProcQ, insertProcQ, emptyProcQ,
      Heap.putPrev, Heap.putNext]
  · have hmap : FifoMap.enqueue a p m = lo ++ (a, [p]) :: hi := by
      rw [hcut.map_eq, FifoMap.enqueue_cut_new hcut.lt hgt]
    have hoff : ∀ x ∉ [p], Function.update h.pcb_next p (.to p) x = h.pcb_next x ∧
        Function.update h.pcb_prev p (.to p) x = h.pcb_prev x := by
      intro x hx
      have hne : x ≠ p := by simpa using hx
      simp [hne]
    rw [hmap]
    refine ⟨⟨_, fr, hasl.insertEntry (i := i) hcut (Ring.singleton (by simp) (by simp)) ?_ rfl rfl
      rfl rfl rfl⟩, rfl, hoff, ?_, rfl⟩
    · exact fun x hx => hoff x (fun hmem => hp (List.mem_singleton.mp hmem ▸ hx))
    · simp [(hasl.cut_ne_semdMax hcut).symm, himax.symm]

/-- Blocking a pcb that is in no queue always finds a descriptor. -/
theorem AslRep.insertBlocked (hasl : AslRep h ids fr m) (hm : FifoMap.WF m)
    (hvalues : (FifoMap.values m).Nodup) (hp : p ∉ FifoMap.values m) (ha : a < MAXINT) :
    ∃ h', (insertBlocked a (.to p)).run h = .ok false h' ∧
      h.AslBecomes h' (FifoMap.enqueue a p m) (Function.update h.pcb_semAdd p a)
        (p :: FifoMap.values m) := by
  obtain ⟨c, w, behind, lo, hi, hcut, hsearch⟩ := searchASL_spec hasl hm ha
  by_cases hkey : nextKey hi = a
  · cases hi with
    | nil =>
      rw [nextKey] at hkey
      exact absurd ha (hkey ▸ lt_irrefl _)
    | cons e hi =>
      obtain ⟨b, l⟩ := e
      obtain rfl : b = a := hkey
      exact hasl.insertBlocked_found hvalues hp hcut hsearch
  · obtain ⟨i, fr, rfl⟩ := hasl.exists_free hm hvalues hp
    obtain ⟨h', hrun, hbecomes⟩ := hasl.insertBlocked_new hm hp hcut hkey hsearch
    exact ⟨h', hrun, hbecomes.mono (by simp)⟩

theorem Queues.WF.apart_of_blocked (hq : q.WF) :
    ∀ x ∈ FifoMap.values q.asl, x ∉ q.free ∧ x ∉ q.ready :=
  fun _ hx => ⟨fun hf => hq.not_blocked_of_free hf hx, fun hr => hq.not_blocked_of_ready hr hx⟩

/-- Blocking a pcb that is in no queue. -/
theorem insertBlocked_spec (hrep : Represents h q) (hq : q.WF) (hp : p ∉ q.placed)
    (ha : a < MAXINT) :
    ∃ h', (insertBlocked a (.to p)).run h = .ok false h' ∧ Represents h' (q.block a p) := by
  obtain ⟨ids, fr, hasl⟩ := hrep.asl
  rw [Queues.mem_placed, not_or, not_or] at hp
  obtain ⟨h', hrun, hbecomes⟩ := hasl.insertBlocked hq.asl hq.values_nodup hp.2.2 ha
  rw [hrep.semAdd] at hbecomes
  refine ⟨h', hrun, hrep.with_asl hbecomes ?_⟩
  intro x hx
  rcases List.mem_cons.mp hx with rfl | hx
  · exact ⟨hp.1, hp.2.1⟩
  · exact hq.apart_of_blocked x hx

/-- Blocking `NULL` is a trap, or finds no descriptor. The trap can leave a
descriptor without a queue on the active list. -/
theorem insertBlocked_null (hrep : Represents h q) (hq : q.WF) (ha : a < MAXINT) :
    (∃ h' m, (insertBlocked a .null).run h = .error .trap h' ∧
      Represents h' { q with asl := m } ∧ FifoMap.values m = FifoMap.values q.asl ∧
      ∀ b, FifoMap.queue b m = FifoMap.queue b q.asl) ∨
      (insertBlocked a .null).run h = .ok true h := by
  obtain ⟨ids, fr, hasl⟩ := hrep.asl
  obtain ⟨c, w, behind, lo, hi, hcut, hsearch⟩ := searchASL_spec hasl hq.asl ha
  have hload := load_nodePtr hcut.after hasl.keys.2
  by_cases hfound : nextKey hi = a
  · refine Or.inl ⟨h, q.asl, ?_, hrep, rfl, fun _ => rfl⟩
    simp only [insertBlocked, EStateM.run_bind, hsearch, run_load_to, hcut.next, hload, hfound,
      if_true, run_store_null]
  · have hhead := hasl.free
    cases fr with
    | nil =>
      refine Or.inr ?_
      simp [insertBlocked, hsearch, hcut.next, hload, hfound, allocSemd,
        show h.semdFree_h = .null from hhead]
    | cons i fr =>
      have hfresh := hasl.free_not_mem_cut hcut List.mem_cons_self
      simp only [List.mem_append, List.mem_cons, not_or] at hfresh
      have hiw : w ≠ i := Ne.symm hfresh.2.1
      refine Or.inl ⟨{ h with
        s_next := Function.update (Function.update h.s_next i (nodePtr behind)) w (.to i)
        s_semAdd := Function.update h.s_semAdd i NULL
        s_procQ := Function.update h.s_procQ i .null
        semdFree_h := h.s_next i }, lo ++ (NULL, []) :: hi, ?_, ?_, ?_, ?_⟩
      · simp [insertBlocked, hsearch, hcut.next, hload, hfound, allocSemd, hhead.1, Heap.putSNext,
          Heap.putSSemAdd, Heap.putSProcQ, mkEmptyProcQ, insertProcQ, emptyProcQ, hiw]
      · have himax : i ≠ semdMax := (hasl.ne_dummy (by simp)).2
        rw [← hrep.semAdd]
        refine hrep.with_asl (l := []) ⟨⟨_, fr, hasl.insertEntry (i := i) hcut Ring.nil
          (fun _ _ => ⟨rfl, rfl⟩) rfl rfl rfl rfl rfl⟩, rfl, fun _ _ => ⟨rfl, rfl⟩, ?_, rfl⟩ (by simp)
        simp [(hasl.cut_ne_semdMax hcut).symm, himax.symm]
      · rw [hcut.map_eq]
        simp [FifoMap.values]
      · have hnull : FifoMap.queue NULL hi = [] := by
          by_contra hne
          have hmem := FifoMap.mem_of_queue_ne_nil hne
          have hlt : NULL < MAXINT := hq.bounded _ (hcut.map_eq ▸ List.mem_append_right _ hmem)
          exact absurd hlt (by decide)
        intro b
        rw [hcut.map_eq]
        exact FifoMap.queue_insert_nil hnull

end Kaya
