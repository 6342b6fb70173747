import Kaya.Phase1.Init
import Kaya.Phase1.Unblock

open Links

namespace Kaya

/-! The active semaphore list on its own, and `outBlocked` for every value of
`pcb_semAdd`. -/

/-- A well-formed active semaphore list: sorted between its dummy nodes, with
nonempty queues that share no pcb, and behind the last node still what static
storage starts with. -/
structure Heap.AslWF (h : Heap) (m : FifoMap Word Pid) : Prop where
  asl : ∃ ids fr, AslRep h ids fr m
  sorted : FifoMap.WF m
  bounded : ∀ e ∈ m, e.1 < MAXINT
  nodup : (FifoMap.values m).Nodup
  tail : h.s_next semdMax = .zero

/-- `outBlocked` returns `p` and takes `p` out of the queue of the semaphore that
`pcb_semAdd` names, or returns `NULL` and changes nothing if `p` is not there. -/
def Heap.OutBlockedMeets (h : Heap) (m : FifoMap Word Pid) (p : Pid) : Prop :=
  if p ∈ FifoMap.queue (h.pcb_semAdd p) m then
    ∃ h', (outBlocked (.to p)).run h = .ok (.to p) h' ∧ h'.AslWF (FifoMap.restrict (· ≠ p) m) ∧
      h.AslBecomes h' (FifoMap.restrict (· ≠ p) m) (Function.update h.pcb_semAdd p NULL)
        (FifoMap.values m)
  else (outBlocked (.to p)).run h = .ok .null h

/-- `pcb_semAdd` is `NULL`, or an address below that of the last dummy node, and on
the queue of an active one `p` is found. -/
def Heap.NamesQueue (h : Heap) (m : FifoMap Word Pid) (p : Pid) : Prop :=
  h.pcb_semAdd p = NULL ∨ h.pcb_semAdd p < MAXINT ∧
    (FifoMap.queue (h.pcb_semAdd p) m = [] ∨ p ∈ FifoMap.queue (h.pcb_semAdd p) m)

variable {h h' : Heap} {m : FifoMap Word Pid} {p : Pid} {a : Word} {ids fr : List Sid} {z : Sid}

theorem Heap.AslWF.becomes {m' : FifoMap Word Pid} {semAdd : Pid → Word} {l : List Pid}
    (hasl : h.AslWF m) (hbecomes : h.AslBecomes h' m' semAdd l) (hsorted : FifoMap.WF m')
    (hbounded : ∀ e ∈ m', e.1 < MAXINT) (hnodup : (FifoMap.values m').Nodup) : h'.AslWF m' :=
  ⟨hbecomes.asl, hsorted, hbounded, hnodup, hbecomes.tail.trans hasl.tail⟩

theorem Heap.AslWF.enqueue {semAdd : Pid → Word} {l : List Pid} (hasl : h.AslWF m)
    (ha : a < MAXINT) (hp : p ∉ FifoMap.values m)
    (hbecomes : h.AslBecomes h' (FifoMap.enqueue a p m) semAdd l) :
    h'.AslWF (FifoMap.enqueue a p m) := by
  refine hasl.becomes hbecomes hasl.sorted.enqueue ?_ ?_
  · intro e he
    rcases FifoMap.mem_enqueue_key he with rfl | ⟨e', he', heq⟩
    · exact ha
    · exact heq ▸ hasl.bounded e' he'
  · exact FifoMap.values_enqueue.nodup_iff.mpr (List.nodup_cons.mpr ⟨hp, hasl.nodup⟩)

/-- A pcb that is in no queue can be blocked. -/
theorem Heap.AslWF.insertBlocked (hasl : h.AslWF m) (hp : p ∉ FifoMap.values m) (ha : a < MAXINT) :
    ∃ h', (insertBlocked a (.to p)).run h = .ok false h' ∧ h'.AslWF (FifoMap.enqueue a p m) ∧
      h'.pcb_semAdd = Function.update h.pcb_semAdd p a := by
  obtain ⟨ids, fr, hrep⟩ := hasl.asl
  obtain ⟨h', hrun, hbecomes⟩ := hrep.insertBlocked hasl.sorted hasl.nodup hp ha
  exact ⟨h', hrun, hasl.enqueue ha hp hbecomes, hbecomes.semAdd⟩

theorem Heap.AslWF.restrict {semAdd : Pid → Word} {l : List Pid} (hasl : h.AslWF m)
    (hbecomes : h.AslBecomes h' (FifoMap.restrict (· ≠ p) m) semAdd l) :
    h'.AslWF (FifoMap.restrict (· ≠ p) m) := by
  refine hasl.becomes hbecomes hasl.sorted.restrict ?_ ?_
  · intro e he
    obtain ⟨-, e', he', rfl⟩ := FifoMap.mem_restrict.mp he
    exact hasl.bounded e' he'
  · rw [FifoMap.values_restrict]
    exact hasl.nodup.filter _

/-- `NULL` and the address of the last dummy node are looked for up to the end. -/
theorem AslRep.searchASL_last (hasl : AslRep h ids fr m) (hm : FifoMap.WF m)
    (hbounded : ∀ e ∈ m, e.1 < MAXINT) (ha : a = NULL ∨ a = MAXINT) :
    ∃ w ∈ semdZero :: ids, (searchASL a).run h = .ok (.to w) h ∧ h.s_next w = .to semdMax := by
  have hlen := hasl.length_eq
  obtain ⟨c, w, behind, lo, hi, hcut, hrun⟩ := searchASLLoop_spec hasl.active hasl.entries
    hasl.keys.2 hm le_rfl (show _ < MAXPROC + 3 by omega)
  have hlast : hi = [] := by
    apply List.eq_nil_iff_forall_not_mem.mpr
    intro e he
    have hlt := hbounded e (hcut.map_eq ▸ List.mem_append_right _ he)
    exact absurd (hcut.ge e he) (not_le.mpr hlt)
  subst hlast
  have hbehind : behind = [] := by simpa using hcut.after
  subst hbehind
  refine ⟨w, by simp [hcut.ids_eq], ?_, hcut.next⟩
  have hkey : (if a = NULL then MAXINT else a) = MAXINT := by
    rcases ha with rfl | rfl
    · rfl
    · rfl
  unfold searchASL
  simp only [hkey]
  rw [Exec.run_bind_ok (EStateM.run_get h), hasl.head]
  exact hrun

/-- A search for a larger address goes on behind the last dummy node. -/
theorem searchASLLoop_beyond {fuel : Nat}
    (hactive : Segment h.s_next (.to z) (z :: ids) (.to semdMax))
    (hent : List.Forall₂ h.Entry ids m) (hmax : h.s_semAdd semdMax = MAXINT)
    (hbounded : ∀ e ∈ m, e.1 < MAXINT) (htail : h.s_next semdMax = .zero) (ha : MAXINT < a)
    (hfuel : ids.length + 1 < fuel) :
    (searchASLLoop a fuel (.to z)).run h = .error .undefined h := by
  induction ids generalizing z m fuel with
  | nil =>
    obtain ⟨fuel, rfl⟩ : ∃ n, fuel = n + 2 := ⟨fuel - 2, by simp at hfuel; omega⟩
    have hnext : h.s_next z = .to semdMax := hactive.2
    simp [searchASLLoop, hnext, hmax, ha, htail]
  | cons i ids ih =>
    obtain ⟨fuel, rfl⟩ : ∃ n, fuel = n + 1 := ⟨fuel - 1, by omega⟩
    cases hent with
    | @cons _ e _ m hie hent =>
      have hnext : h.s_next z = .to i := hactive.2.1
      have hkey : h.s_semAdd i < a := by
        rw [hie.1]
        exact (hbounded e List.mem_cons_self).trans ha
      have hrest := ih (z := i) ⟨rfl, hactive.2.2⟩ hent
        (fun e he => hbounded e (List.mem_cons_of_mem _ he))
        (show _ < fuel by simp only [List.length_cons] at hfuel; omega)
      simpa [searchASLLoop, hnext, hkey] using hrest

theorem Heap.AslWF.searchASL_beyond (hasl : h.AslWF m) (ha : MAXINT < a) (hne : a ≠ NULL) :
    (searchASL a).run h = .error .undefined h := by
  obtain ⟨ids, fr, hrep⟩ := hasl.asl
  have hlen := hrep.length_eq
  have hrun := searchASLLoop_beyond hrep.active hrep.entries hrep.keys.2 hasl.bounded hasl.tail ha
    (show _ < MAXPROC + 3 by omega)
  unfold searchASL
  rw [if_neg hne, Exec.run_bind_ok (EStateM.run_get h), hrep.head]
  exact hrun

theorem Heap.AslWF.queue_eq_nil (hasl : h.AslWF m) (ha : ¬ a < MAXINT) :
    FifoMap.queue a m = [] := by
  by_contra hne
  exact ha (hasl.bounded _ (FifoMap.mem_of_queue_ne_nil hne))

/-- A pcb that names no semaphore is not looked for in any queue. -/
theorem AslRep.outBlocked_null (hasl : AslRep h ids fr m) (hm : FifoMap.WF m)
    (hbounded : ∀ e ∈ m, e.1 < MAXINT) (hnull : h.pcb_semAdd p = NULL) :
    (outBlocked (.to p)).run h = .ok .null h := by
  obtain ⟨w, -, hsearch, hnext⟩ := hasl.searchASL_last hm hbounded (.inl rfl)
  have hload : (load Heap.pcb_semAdd (.to p)).run h = .ok NULL h := by rw [run_load_to, hnull]
  have hne : MAXINT ≠ NULL := by decide
  rw [outBlocked, Exec.run_bind_ok hload, Exec.run_bind_ok hsearch]
  simp [hnext, hasl.keys.2, hne, hnull]

theorem AslRep.outBlocked_inactive (hasl : AslRep h ids fr m) (hm : FifoMap.WF m)
    (ha : h.pcb_semAdd p < MAXINT) (hwait : FifoMap.queue (h.pcb_semAdd p) m = []) :
    (outBlocked (.to p)).run h = .ok .null h := by
  generalize hsem : h.pcb_semAdd p = a at ha hwait
  obtain ⟨c, w, behind, lo, hi, hcut, hsearch⟩ := searchASL_spec hasl hm ha
  have hkey := load_nodePtr hcut.after hasl.keys.2
  have hload : (load Heap.pcb_semAdd (.to p)).run h = .ok a h := by rw [run_load_to, hsem]
  rw [outBlocked, Exec.run_bind_ok hload, Exec.run_bind_ok hsearch]
  simp [hcut.next, hkey, hsem, hcut.key_ne hm ha hwait]

/-- A pcb that is not on the queue it names: `NULL` is written through. -/
theorem AslRep.outBlocked_elsewhere (hasl : AslRep h ids fr m) (hm : FifoMap.WF m)
    (ha : h.pcb_semAdd p < MAXINT) (hwait : FifoMap.queue (h.pcb_semAdd p) m ≠ [])
    (hp : p ∉ FifoMap.queue (h.pcb_semAdd p) m) :
    (outBlocked (.to p)).run h = .error .trap h := by
  generalize hsem : h.pcb_semAdd p = a at ha hwait hp
  obtain ⟨c, w, behind, lo, hi, hcut, hsearch⟩ := searchASL_spec hasl hm ha
  obtain ⟨hi, rfl⟩ := hcut.exists_found hm ha hwait
  cases hafter : hcut.after with
  | @cons i _ behind _ hie _ =>
    have hrun := outProcQ_not_mem hie.2 hp
    have hkey : h.s_semAdd i = a := hie.1
    have hne : h.s_procQ i ≠ .null := by
      rw [hie.2.tail, Ne, tailPtr_eq_null]
      exact hwait
    have hload : (load Heap.pcb_semAdd (.to p)).run h = .ok a h := by rw [run_load_to, hsem]
    rw [outBlocked, Exec.run_bind_ok hload, Exec.run_bind_ok hsearch]
    simp [hcut.next, nodePtr, hkey, hsem, hrun, Kaya.dropEmptySemd, emptyProcQ, hne, Heap.putSProcQ]

/-- A pcb that names the address of the last dummy node: the node is freed before
`NULL` is written through. -/
theorem AslRep.outBlocked_max (hasl : AslRep h ids fr m) (hm : FifoMap.WF m)
    (hbounded : ∀ e ∈ m, e.1 < MAXINT) (hmax : h.pcb_semAdd p = MAXINT) :
    ∃ h', (outBlocked (.to p)).run h = .error .trap h' := by
  obtain ⟨w, -, hsearch, hnext⟩ := hasl.searchASL_last hm hbounded (.inr rfl)
  have hload : (load Heap.pcb_semAdd (.to p)).run h = .ok MAXINT h := by rw [run_load_to, hmax]
  rw [outBlocked, Exec.run_bind_ok hload, Exec.run_bind_ok hsearch]
  simp [hnext, hasl.keys.2, hmax, hasl.noProcs.2, outProcQ, Kaya.dropEmptySemd, emptyProcQ, freeSemd,
    Heap.putSProcQ]

theorem Heap.AslWF.outBlocked_beyond (hasl : h.AslWF m) (ha : MAXINT < h.pcb_semAdd p)
    (hne : h.pcb_semAdd p ≠ NULL) : (outBlocked (.to p)).run h = .error .undefined h := by
  have hsearch := hasl.searchASL_beyond ha hne
  rw [outBlocked, Exec.run_bind_ok (run_load_to _ _ _), Exec.run_bind_error hsearch]

/-- `outBlocked` comes back only for a pcb that names a queue it can be looked for in. -/
theorem Heap.AslWF.namesQueue_of_run {r : PcbPtr} (hasl : h.AslWF m)
    (hrun : (outBlocked (.to p)).run h = .ok r h') : h.NamesQueue m p := by
  obtain ⟨ids, fr, hrep⟩ := hasl.asl
  by_cases hnull : h.pcb_semAdd p = NULL
  · exact .inl hnull
  by_cases ha : h.pcb_semAdd p < MAXINT
  · by_contra hnames
    simp only [Heap.NamesQueue, hnull, ha, true_and, false_or, not_or] at hnames
    rw [hrep.outBlocked_elsewhere hasl.sorted ha hnames.1 hnames.2] at hrun
    exact absurd hrun nofun
  · exfalso
    rcases (not_lt.mp ha).eq_or_lt with hmax | hbeyond
    · obtain ⟨h'', htrap⟩ := hrep.outBlocked_max hasl.sorted hasl.bounded hmax.symm
      rw [htrap] at hrun
      exact absurd hrun nofun
    · rw [hasl.outBlocked_beyond hbeyond hnull] at hrun
      exact absurd hrun nofun

theorem Heap.AslWF.outBlockedMeets (hasl : h.AslWF m) (hnames : h.NamesQueue m p) :
    h.OutBlockedMeets m p := by
  obtain ⟨ids, fr, hrep⟩ := hasl.asl
  unfold Heap.OutBlockedMeets
  rcases hnames with hnull | ⟨ha, hwait | hmem⟩
  · have hwait : FifoMap.queue (h.pcb_semAdd p) m = [] := by
      rw [hnull]
      exact hasl.queue_eq_nil (by decide)
    rw [hwait, if_neg List.not_mem_nil]
    exact hrep.outBlocked_null hasl.sorted hasl.bounded hnull
  · rw [hwait, if_neg List.not_mem_nil]
    exact hrep.outBlocked_inactive hasl.sorted ha hwait
  · rw [if_pos hmem]
    obtain ⟨h', hrun, hbecomes⟩ := hrep.outBlocked_mem hasl.sorted hasl.nodup ha hmem
    exact ⟨h', hrun, hasl.restrict hbecomes, hbecomes⟩

/-- `outBlocked` does what its comment says exactly for the pcbs whose `pcb_semAdd` is
`NULL`, or is below the address of the last dummy node and not that of a queue the pcb
is missing from. -/
theorem outBlocked_iff (hasl : h.AslWF m) : h.OutBlockedMeets m p ↔ h.NamesQueue m p := by
  refine ⟨fun hmeets => ?_, hasl.outBlockedMeets⟩
  unfold Heap.OutBlockedMeets at hmeets
  split at hmeets
  · obtain ⟨h', hrun, -⟩ := hmeets
    exact hasl.namesQueue_of_run hrun
  · exact hasl.namesQueue_of_run hmeets

/-- `initASL` leaves a well-formed list without active semaphores. -/
theorem initASL_aslWF (htail : h.s_next semdMax = .zero) :
    ∃ h', initASL.run h = .ok () h' ∧ h'.AslWF [] ∧ h'.pcb_semAdd = h.pcb_semAdd := by
  obtain ⟨h', hrun, hasl, htail', hsame⟩ := initASL_run h
  refine ⟨h', hrun, ⟨⟨_, _, hasl⟩, FifoMap.WF.nil, by simp, by simp, htail'.trans htail⟩, ?_⟩
  rw [hsame]

/-- Three pcbs wait on one semaphore and one on another; the second of the three is taken
out. -/
theorem outBlocked_iff_small : ∃ h h' : Heap,
    h.AslWF [(0x20001000, [16]), (0x20002000, [19, 18, 17])] ∧
    (outBlocked (.to 18)).run h = .ok (.to 18) h' ∧
    h'.AslWF [(0x20001000, [16]), (0x20002000, [19, 17])] := by
  obtain ⟨h0, -, hasl0, -⟩ := initASL_aslWF (h := Heap.bss .null) rfl
  obtain ⟨h1, -, hasl1, -⟩ := hasl0.insertBlocked (a := 0x20002000) (p := 19) (by decide) (by decide)
  obtain ⟨h2, -, hasl2, hsemAdd2⟩ :=
    hasl1.insertBlocked (a := 0x20002000) (p := 18) (by decide) (by decide)
  obtain ⟨h3, -, hasl3, hsemAdd3⟩ :=
    hasl2.insertBlocked (a := 0x20001000) (p := 16) (by decide) (by decide)
  obtain ⟨h4, -, hasl4, hsemAdd4⟩ :=
    hasl3.insertBlocked (a := 0x20002000) (p := 17) (by decide) (by decide)
  have hnames : h4.pcb_semAdd 18 = 0x20002000 := by
    rw [hsemAdd4, hsemAdd3, hsemAdd2]
    rfl
  have hmeets := (outBlocked_iff (p := 18) hasl4).mpr (by
    unfold Heap.NamesQueue
    rw [hnames]
    decide)
  unfold Heap.OutBlockedMeets at hmeets
  rw [hnames, if_pos (by decide)] at hmeets
  obtain ⟨h', hrun, hasl', -⟩ := hmeets
  exact ⟨h4, h', hasl4, hrun, hasl'⟩

/-- Two pcbs name the semaphore 0x20002000 and only the first is on its queue. -/
theorem not_always_outBlocked : ¬ ∀ (h : Heap) (m : FifoMap Word Pid) (p : Pid), h.AslWF m →
    h.OutBlockedMeets m p := by
  intro hall
  obtain ⟨h, -, hasl, hsemAdd⟩ :=
    initASL_aslWF (h := { Heap.bss .null with pcb_semAdd := fun _ => 0x20002000 }) rfl
  obtain ⟨h', -, hasl', hafter⟩ :=
    hasl.insertBlocked (p := firstPid) (a := 0x20002000) (by simp) (by decide)
  have hsemAdd' : h'.pcb_semAdd 0 = 0x20002000 := by
    rw [hafter, hsemAdd]
    rfl
  have hmeets := hall h' _ 0 hasl'
  have hqueue : FifoMap.queue (h'.pcb_semAdd 0) (FifoMap.enqueue 0x20002000 firstPid []) =
      [firstPid] := by
    rw [hsemAdd']
    rfl
  unfold Heap.OutBlockedMeets at hmeets
  rw [hqueue, if_neg (by decide)] at hmeets
  have hnames := hasl'.namesQueue_of_run hmeets
  unfold Heap.NamesQueue at hnames
  rw [hqueue, hsemAdd'] at hnames
  exact absurd hnames (by decide)

end Kaya
