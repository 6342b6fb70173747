import Kaya.Phase1.Alloc
import Kaya.Phase1.Block
import Kaya.Phase1.Family
import Kaya.Phase2.Ends

open Links

namespace Kaya

variable {M : Machine} {h : Heap} {q : Queues} {d : Data} {p : Pid}

/-- The state the system calls work on. -/
abbrev sysOld : StateRef := .old .SYSCALLOLDAREA

theorem run_arg {r : Fin STATEREGNUM} :
    (getField M sysOld (.s_reg r)).run d = .ok (d.arg r) d := rfl

/-- A semaphore is changed and looked at. -/
theorem bind_adjust {β : Type} {a : Word} {f : Word → Word} {g : Word → KernelM β}
    (hw : M.writable a = true) :
    (do
      let v ← loadWord M a
      storeWord M a (f v)
      let v ← loadWord M a
      g v : KernelM β).run ⟨h, d⟩ = (g (f (d.mem a))).run ⟨h, d.setMem a (f (d.mem a))⟩ := by
  have hr := M.readable_of_writable a hw
  rw [bind_data (run_loadWord_ok hr), bind_data (run_storeWord_ok hw),
    bind_data (run_loadWord_ok hr)]
  simp [Data.setMem]

theorem bind_adjust_trap {β : Type} {a : Word} {f : Word → Word} {g : Word → KernelM β}
    (hw : M.writable a = false) :
    (do
      let v ← loadWord M a
      storeWord M a (f v)
      let v ← loadWord M a
      g v : KernelM β).run ⟨h, d⟩ = .error .trap ⟨h, d⟩ := by
  cases hr : M.readable a with
  | false => exact bind_data_error (run_loadWord_trap hr)
  | true =>
    rw [bind_data (run_loadWord_ok hr)]
    exact bind_data_error (run_storeWord_trap hw)

/-- A service that returns leads back to the caller. -/
theorem Completes.back {act : Nucleus → Next → Prop} {x : KernelM Unit} {k : Kernel}
    (hact : act ⟨q, d⟩ (.stop (resumeCaller d))) (hrep : Represents h q)
    (hx : x.run k = .ok () ⟨h, d⟩) :
    Completes ((x >>= fun _ => putALoadInMeDaddy M sysOld).run k) act := by
  refine .stop hact hrep ?_
  rw [Exec.run_bind_ok hx, run_data_error run_putALoadInMeDaddy_old]
  rfl

/-- Waking the first process that waits on `a`. -/
theorem wake_spec (hrep : Represents h q) (hq : q.WF) {a : Word} {rest : List Pid}
    (hwait : q.waiting a = p :: rest) :
    ∃ h1 h2, (removeBlocked a).run h = .ok (.to p) h1 ∧
      (store Heap.putSemAdd (.to p) NULL).run h1 = .ok () h1 ∧
      (insertReady (.to p)).run h1 = .ok () h2 ∧ Represents h2 (q.wake p) := by
  have hp : p ∈ FifoMap.values q.asl :=
    Queues.mem_values_of_mem_waiting (a := a) (by simp [hwait])
  obtain ⟨h1, hrun1, hrep1⟩ := removeBlocked_cons hrep hq hwait
  obtain ⟨h2, hrun2, hrep2⟩ := insertReady_spec hrep1 (hq.unplaced_unblock hp) hq.unblock
  refine ⟨h1, h2, hrun1, ?_, hrun2, hrep2⟩
  have hsame : Heap.putSemAdd p NULL h1 = h1 := by
    have hnull : NULL = h1.pcb_semAdd p := by
      rw [hrep1.semAdd]
      simp [Queues.unblock]
    unfold Heap.putSemAdd
    rw [hnull, Function.update_eq_self]
  rw [run_store_to, hsame]

theorem sysSignal_spec (hrep : Represents h q) (hn : Nucleus.Settled M ⟨q, d⟩) :
    Completes ((sysSignal M sysOld >>= fun _ => putALoadInMeDaddy M sysOld).run ⟨h, d⟩)
      (Service M q d 3) := by
  cases hw : M.writable (d.arg s_a1) with
  | false =>
    refine .stop (.signalFault hw) hrep (Exec.run_bind_error ?_)
    unfold sysSignal
    rw [bind_data run_arg]
    exact bind_adjust_trap hw
  | true =>
    have ha : d.arg s_a1 < MAXINT := M.below _ (M.readable_of_writable _ hw)
    by_cases hv : (d.mem (d.arg s_a1) + 1).toInt ≤ 0
    · cases hwait : q.waiting (d.arg s_a1) with
      | nil =>
        refine .back (.signal hw rfl (Or.inr hwait)) hrep (k := ⟨h, d⟩) ?_
        unfold sysSignal
        rw [bind_data run_arg, bind_adjust (f := (· + 1)) hw, if_pos hv,
          bind_heap (removeBlocked_nil hrep hn.wf ha hwait), if_neg (by simp)]
        rfl
      | cons x rest =>
        obtain ⟨h1, h2, hrun1, hrun2, hrun3, hrep'⟩ := wake_spec hrep hn.wf hwait
        refine .back (.signalWake hw rfl hv hwait) hrep' (k := ⟨h, d⟩) ?_
        unfold sysSignal
        rw [bind_data run_arg, bind_adjust (f := (· + 1)) hw, if_pos hv, bind_heap hrun1,
          if_pos (by simp), bind_heap hrun2, run_heap_ok hrun3]
    · refine .back (.signal hw rfl (Or.inl (by omega))) hrep (k := ⟨h, d⟩) ?_
      unfold sysSignal
      rw [bind_data run_arg, bind_adjust (f := (· + 1)) hw, if_neg hv]
      rfl

/-- A service that ends in a call of the scheduler. -/
theorem ends_resume {x : KernelM Unit} {k : Kernel} (hrep : Represents h q) (hq : q.WF)
    (hcur : d.currentProcess ≠ .zero) (hx : x.run k = (scheduler M).run ⟨h, d⟩) :
    Ends ((x >>= fun _ => putALoadInMeDaddy M sysOld).run k) ⟨q, d⟩ (.sched resumeCaller) := by
  rw [Exec.run_bind_congr hx]
  refine ends_scheduler hrep hq hcur fun h' d' _ => ?_
  rw [run_data_error run_putALoadInMeDaddy_old]
  rfl

theorem sysWait_spec (hrep : Represents h q) (hn : Nucleus.Settled M ⟨q, d⟩) :
    Completes ((sysWait M sysOld >>= fun _ => putALoadInMeDaddy M sysOld).run ⟨h, d⟩)
      (Service M q d 4) := by
  cases hw : M.writable (d.arg s_a1) with
  | false =>
    refine .stop (.waitFault hw) hrep (Exec.run_bind_error ?_)
    unfold sysWait
    rw [bind_data run_arg]
    exact bind_adjust_trap hw
  | true =>
    have ha : d.arg s_a1 < MAXINT := M.below _ (M.readable_of_writable _ hw)
    by_cases hv : (d.mem (d.arg s_a1) - 1).toInt < 0
    · rcases hcur : d.currentProcess with - | - | p
      · refine .stop (.waitNobody hw rfl hv hcur) hrep (Exec.run_bind_error ?_)
        unfold sysWait
        rw [bind_data run_arg, bind_adjust (f := (· - 1)) hw, if_pos hv, bind_get]
        simp only [Data.setMem, hcur]
        exact bind_data_error run_copyState_null
      · exact absurd hcur hn.current
      · have hp := hn.unplaced p hcur
        obtain ⟨h', hrun, hrep'⟩ := insertBlocked_spec hrep hn.wf hp ha
        refine .intro (.waitBlock hw rfl hv hcur)
          (ends_resume hrep' (hn.wf.block hp ha) (by simp [Data.save, Data.setMem, hcur]) ?_)
        unfold sysWait
        rw [bind_data run_arg, bind_adjust (f := (· - 1)) hw, if_pos hv, bind_get]
        simp only [Data.setMem, hcur]
        rw [bind_data run_copyState_old_pcb, bind_get]
        dsimp only
        rw [bind_heap hrun]
        rfl
    · refine .back (.wait hw rfl (by omega)) hrep (k := ⟨h, d⟩) ?_
      unfold sysWait
      rw [bind_data run_arg, bind_adjust (f := (· - 1)) hw, if_neg hv]
      rfl

theorem sysGoPowerRangers_spec (hrep : Represents h q) (hn : Nucleus.Settled M ⟨q, d⟩) :
    Completes ((sysGoPowerRangers M sysOld >>= fun _ => putALoadInMeDaddy M sysOld).run ⟨h, d⟩)
      (Service M q d 8) := by
  have hunfold : ∀ {g : KernelM Unit}, g = (do
      let v ← loadWord M (ioSemaphore M d)
      storeWord M (ioSemaphore M d) (v - 1)
      let v ← loadWord M (ioSemaphore M d)
      if v.toInt < 0 then
        copyState M sysOld (.pcb_state (← get).data.currentProcess)
        let _ ← insertBlocked (ioSemaphore M d) (← get).data.currentProcess
        modifyData fun d => { d with softBlockCount := d.softBlockCount + 1 }
        scheduler M) → (sysGoPowerRangers M sysOld).run ⟨h, d⟩ = g.run ⟨h, d⟩ := by
    rintro g rfl
    unfold sysGoPowerRangers
    rw [bind_data run_arg, bind_data run_arg, bind_data run_arg]
    rfl
  cases hw : M.writable (ioSemaphore M d) with
  | false =>
    refine .stop (.ioFault hw) hrep (Exec.run_bind_error ?_)
    rw [hunfold rfl]
    exact bind_adjust_trap hw
  | true =>
    have ha : ioSemaphore M d < MAXINT := M.below _ (M.readable_of_writable _ hw)
    by_cases hv : (d.mem (ioSemaphore M d) - 1).toInt < 0
    · rcases hcur : d.currentProcess with - | - | p
      · refine .stop (.ioNobody hw rfl hv hcur) hrep (Exec.run_bind_error ?_)
        rw [hunfold rfl, bind_adjust (f := (· - 1)) hw, if_pos hv, bind_get]
        simp only [Data.setMem, hcur]
        exact bind_data_error run_copyState_null
      · exact absurd hcur hn.current
      · have hp := hn.unplaced p hcur
        obtain ⟨h', hrun, hrep'⟩ := insertBlocked_spec hrep hn.wf hp ha
        refine .intro (.ioBlock hw rfl hv hcur) (ends_resume hrep' (hn.wf.block hp ha)
          (by simp [Data.save, Data.setMem, Data.addSoftBlock, hcur]) ?_)
        rw [hunfold rfl, bind_adjust (f := (· - 1)) hw, if_pos hv, bind_get]
        simp only [Data.setMem, hcur]
        rw [bind_data run_copyState_old_pcb, bind_get]
        dsimp only
        rw [bind_heap hrun, bind_modifyData]
        rfl
    · refine .back (.io hw rfl (by omega)) hrep (k := ⟨h, d⟩) ?_
      rw [hunfold rfl, bind_adjust (f := (· - 1)) hw, if_neg hv]
      rfl

/-- Without a current process SYS1 loses the pcb it has allocated, and SYS7 can
leave a semaphore active that nobody waits on. -/
inductive Derails (q : Queues) (d : Data) : Int → Kernel → Prop where
  | create {k : Kernel} {p : Pid} {rest : List Pid} : d.currentProcess = .null →
      q.free = p :: rest → k.data.currentProcess = .null → Represents k.heap (q.alloc p) →
      Derails q d 1 k
  | clock {k : Kernel} {m : FifoMap Word Pid} : d.currentProcess = .null →
      k.data.currentProcess = .null → k.data.processCount = d.processCount →
      Represents k.heap { q with asl := m } → FifoMap.values m = FifoMap.values q.asl →
      (∀ a, FifoMap.queue a m = FifoMap.queue a q.asl) → Derails q d 7 k

theorem run_sysWaitForClock {g : KernelM Unit} (hg : g = (do
      let v ← loadWord M (clockSemaphore M)
      storeWord M (clockSemaphore M) (v - 1)
      let v ← loadWord M (clockSemaphore M)
      if v.toInt < 0 then
        let _ ← insertBlocked (clockSemaphore M) (← get).data.currentProcess
        copyState M sysOld (.pcb_state (← get).data.currentProcess)
        modifyData fun d => { d with softBlockCount := d.softBlockCount + 1 }
        scheduler M
      else scheduler M)) : sysWaitForClock M sysOld = g := by
  rw [hg]
  rfl

/-- SYS7 without a current process. -/
theorem run_sysWaitForClock_nobody (hrep : Represents h q) (hn : Nucleus.Settled M ⟨q, d⟩)
    (hcur : d.currentProcess = .null) (hv : (d.mem (clockSemaphore M) - 1).toInt < 0) :
    ∃ h' m, (sysWaitForClock M sysOld).run ⟨h, d⟩ = .error .trap
        ⟨h', d.setMem (clockSemaphore M) (d.mem (clockSemaphore M) - 1)⟩ ∧
      Represents h' { q with asl := m } ∧ FifoMap.values m = FifoMap.values q.asl ∧
      ∀ a, FifoMap.queue a m = FifoMap.queue a q.asl := by
  have hw : M.writable (clockSemaphore M) = true := M.sem_writable 48 (by decide)
  have ha : clockSemaphore M < MAXINT := M.below _ (M.readable_of_writable _ hw)
  rw [run_sysWaitForClock rfl, bind_adjust (f := (· - 1)) hw, if_pos hv, bind_get]
  simp only [Data.setMem, hcur]
  rcases insertBlocked_null hrep hn.wf ha with ⟨h', m, hrun, hsame⟩ | hrun
  · exact ⟨h', m, bind_heap_error hrun, hsame⟩
  · refine ⟨h, q.asl, ?_, hrep, rfl, fun _ => rfl⟩
    rw [bind_heap hrun, bind_get]
    exact bind_data_error run_copyState_null

theorem sysWaitForClock_spec (hrep : Represents h q) (hn : Nucleus.Settled M ⟨q, d⟩) :
    Completes ((sysWaitForClock M sysOld >>= fun _ => putALoadInMeDaddy M sysOld).run ⟨h, d⟩)
        (Service M q d 7) ∨
      ∃ k, (sysWaitForClock M sysOld >>= fun _ => putALoadInMeDaddy M sysOld).run ⟨h, d⟩ =
        .error .trap k ∧ Derails q d 7 k := by
  have hw : M.writable (clockSemaphore M) = true := M.sem_writable 48 (by decide)
  have ha : clockSemaphore M < MAXINT := M.below _ (M.readable_of_writable _ hw)
  by_cases hv : (d.mem (clockSemaphore M) - 1).toInt < 0
  · rcases hcur : d.currentProcess with - | - | p
    · right
      obtain ⟨h', m, hstop, hrep', hvalues, hqueues⟩ := run_sysWaitForClock_nobody hrep hn hcur hv
      exact ⟨_, Exec.run_bind_error hstop, .clock hcur hcur rfl hrep' hvalues hqueues⟩
    · exact absurd hcur hn.current
    · have hp := hn.unplaced p hcur
      obtain ⟨h', hrun, hrep'⟩ := insertBlocked_spec hrep hn.wf hp ha
      refine .inl (.intro (.clockBlock rfl hv hcur) (ends_resume hrep' (hn.wf.block hp ha)
        (by simp [Data.save, Data.setMem, Data.addSoftBlock, hcur]) ?_))
      rw [run_sysWaitForClock rfl, bind_adjust (f := (· - 1)) hw, if_pos hv, bind_get]
      simp only [Data.setMem, hcur]
      rw [bind_heap hrun, bind_get, bind_data run_copyState_old_pcb, bind_modifyData]
      rfl
  · refine .inl (.intro (.clock rfl (by omega)) (ends_resume hrep hn.wf hn.current ?_))
    rw [run_sysWaitForClock rfl, bind_adjust (f := (· - 1)) hw, if_neg hv]

theorem sysGetCPUTime_spec (hrep : Represents h q) (hn : Nucleus.Settled M ⟨q, d⟩) :
    Completes ((sysGetCPUTime M sysOld >>= fun _ => putALoadInMeDaddy M sysOld).run ⟨h, d⟩)
      (Service M q d 6) := by
  rcases hcur : d.currentProcess with - | - | p
  · refine .stop (.nobody (by decide) hcur) hrep (Exec.run_bind_error ?_)
    unfold sysGetCPUTime
    rw [bind_get]
    simp only [hcur]
    exact bind_data_error run_copyState_null
  · exact absurd hcur hn.current
  · refine .stop (.getTime hcur) hrep (Exec.run_bind_error ?_)
    unfold sysGetCPUTime
    rw [bind_get]
    simp only [hcur]
    rw [bind_data run_copyState_old_pcb, bind_data run_STCK, bind_modifyData]
    simp only [bind_get, hcur]
    rw [bind_data run_bill, bind_get, bind_data run_derefPcb_to, bind_get,
      bind_data run_setField_pcb, bind_data run_STCK, bind_modifyData, bind_get,
      run_data_error run_putALoadInMeDaddy_pcb]
    simp [Data.accounted, hcur]

/-- The pcb of a new process is taken off the free list, linked to its parent
and put into the ready queue. -/
theorem create_spec {c : Pid} {rest : List Pid} (hrep : Represents h q) (hq : q.WF)
    (hfree : q.free = c :: rest) (hp : p ∉ q.free) :
    ∃ h1 h2 h3, allocPcb.run h = .ok (.to c) h1 ∧
      (insertChild (.to p) (.to c)).run h1 = .ok () h2 ∧
      (insertReady (.to c)).run h2 = .ok () h3 ∧ Represents h3 (q.create p c) := by
  obtain ⟨hp', hc', hchildren, hparent, hne⟩ := hq.fresh hfree hp
  obtain ⟨h1, hrun1, hrep1⟩ := allocPcb_cons hrep hq hfree
  obtain ⟨h2, hrun2, hrep2⟩ := insertChild_spec hrep1 (hq.alloc hfree) hp' hparent
  obtain ⟨h3, hrun3, hrep3⟩ := insertReady_spec hrep2 (hq.unplaced_alloc hfree)
    ((hq.alloc hfree).adopt hp' hc' hchildren hparent hne)
  exact ⟨h1, h2, h3, hrun1, hrun2, hrun3, hrep3⟩

/-- SYS1 without a current process. -/
theorem run_sysCreate_nobody {c : Pid} {rest : List Pid} (hrep : Represents h q) (hq : q.WF)
    (hfree : q.free = c :: rest) (hcur : d.currentProcess = .null) :
    ∃ h', (sysCreate M sysOld).run ⟨h, d⟩ = .error .trap ⟨h', d.addProcess 1⟩ ∧
      Represents h' (q.alloc c) := by
  obtain ⟨h', hrun, hrep'⟩ := allocPcb_cons hrep hq hfree
  refine ⟨h', ?_, hrep'⟩
  unfold sysCreate
  rw [bind_heap hrun, if_pos (by simp [emptyProcQ]), bind_modifyData, bind_get]
  simp only [hcur]
  rw [bind_heap_error (show (insertChild .null (.to c)).run h' = .error .trap h' from rfl)]
  simp [Data.addProcess, hcur]

theorem sysCreate_spec (hrep : Represents h q) (hn : Nucleus.Settled M ⟨q, d⟩) :
    Completes ((sysCreate M sysOld >>= fun _ => putALoadInMeDaddy M sysOld).run ⟨h, d⟩)
        (Service M q d 1) ∨
      ∃ k, (sysCreate M sysOld >>= fun _ => putALoadInMeDaddy M sysOld).run ⟨h, d⟩ =
        .error .trap k ∧ Derails q d 1 k := by
  cases hfree : q.free with
  | nil =>
    refine .inl (.back (.createFull hfree) hrep (k := ⟨h, d⟩) ?_)
    unfold sysCreate
    rw [bind_heap (allocPcb_nil hrep hfree)]
    rfl
  | cons c rest =>
    rcases hcur : d.currentProcess with - | - | p
    · right
      obtain ⟨h', hstop, hrep'⟩ := run_sysCreate_nobody (M := M) hrep hn.wf hfree hcur
      exact ⟨_, Exec.run_bind_error hstop, .create hcur hfree hcur hrep'⟩
    · exact absurd hcur hn.current
    · have hp : p ∉ q.free := fun hf => hn.unplaced p hcur (Queues.mem_placed.mpr (Or.inl hf))
      obtain ⟨h1, h2, h3, hrun1, hrun2, hrun3, hrep3⟩ := create_spec hrep hn.wf hfree hp
      have hrun : ∀ {g : KernelM Unit}, g = (do
          copyState M (.mem (d.arg s_a1)) (.pcb_state (.to c))
          setField M sysOld (.s_reg s_v0) SUCCESS) →
          (sysCreate M sysOld).run ⟨h, d⟩ = g.run ⟨h3, d.addProcess 1⟩ := by
        rintro g rfl
        unfold sysCreate
        rw [bind_heap hrun1, if_pos (by simp [emptyProcQ]), bind_modifyData, bind_get]
        simp only [hcur]
        rw [bind_heap hrun2, bind_heap hrun3, bind_data run_arg]
        simp [Data.addProcess, Data.arg, hcur]
      cases hr : M.readableState (d.arg s_a1) with
      | true =>
        refine .inl (.back (.create hcur hfree hr) hrep3 (k := ⟨h, d⟩) ?_)
        rw [hrun rfl, bind_data (run_copyState_mem_pcb hr), run_data_ok run_setField_old]
        rfl
      | false =>
        obtain ⟨st, hcopy⟩ := run_copyState_mem_pcb_trap (d := d.addProcess 1) (p := c) hr
        have hact : Service M q d 1 ⟨q.create p c, (d.addProcess 1).give c st⟩ (.stop .trap) :=
          .createFault hcur hfree hr
        refine .inl (.stop hact hrep3 ?_)
        refine Exec.run_bind_error ?_
        rw [hrun rfl, bind_data_error hcopy]
        rfl

theorem Represents.setStates (hrep : Represents h q) {v : TrapType → Section → Word} :
    Represents (Heap.putStates p v h) (q.setStates p v) where
  free := hrep.free
  ready := hrep.ready
  asl := hrep.asl_congr rfl rfl rfl rfl rfl fun _ _ => ⟨rfl, rfl⟩
  children := hrep.children
  parent := hrep.parent
  roots := hrep.roots
  semAdd := hrep.semAdd
  states := by
    show Function.update h.pcb_states p v = _
    rw [hrep.states]
    rfl
  rom := hrep.rom

theorem run_statesRow {w : Word} {type : TrapType} {k : Kernel}
    (htype : TrapType.ofWord w = some type) : (statesRow w).run k = .ok (.of type) k := by
  unfold TrapType.ofWord at htype
  split_ifs at htype with h0 h1 h2 <;>
  · cases htype
    subst w
    rfl

theorem run_trapArea (hrep : Represents h q) {type : TrapType} {s : Section} :
    (trapArea (.to p) type s).run ⟨h, d⟩ = .ok (q.states p type s) ⟨h, d⟩ := by
  unfold trapArea
  rw [bind_heap (run_load_to _ p h), hrep.states]
  rfl

theorem run_trapArea_null {type : TrapType} {s : Section} :
    (trapArea .null type s).run ⟨h, d⟩ = .error .trap ⟨h, d⟩ :=
  bind_heap_error (run_load_null _ h)

theorem run_setTrapArea_null {type : TrapType} {s : Section} {a : Word} :
    (setTrapArea .null type s a).run ⟨h, d⟩ = .error .trap ⟨h, d⟩ :=
  bind_heap_error (run_load_null _ h)

/-- SYS5 fills in both columns of a row. -/
theorem setTrapAreas_spec (type : TrapType) (hrep : Represents h q) {a b : Word} :
    ∃ h1 h2, (setTrapArea (.to p) type .OLD a).run ⟨h, d⟩ = .ok () ⟨h1, d⟩ ∧
      (setTrapArea (.to p) type .NEW b).run ⟨h1, d⟩ = .ok () ⟨h2, d⟩ ∧
      Represents h2 (q.setStates p fun t s =>
        if t = type then (match s with | .NEW => b | .OLD => a) else q.states p t s) := by
  have hset : ∀ {h s a}, (setTrapArea (.to p) type s a).run ⟨h, d⟩ = .ok () ⟨Heap.putStates p
      (fun t' s' => if t' = type ∧ s' = s then a else h.pcb_states p t' s') h, d⟩ := by
    intro h s a
    unfold setTrapArea
    rw [bind_heap (run_load_to _ p h), run_heap_ok (run_store_to _ p _ h)]
  refine ⟨_, _, hset, hset, ?_⟩
  have htwice : ∀ {v w}, Heap.putStates p w (Heap.putStates p v h) = Heap.putStates p w h := by
    intro v w
    simp [Heap.putStates]
  rw [htwice]
  convert hrep.setStates using 2
  funext t s
  rw [← hrep.states]
  by_cases ht : t = type
  · cases s <;> simp [ht, Heap.putStates]
  · simp [ht, Heap.putStates]

/-- SYS5 looks up the new area of the current process first. -/
theorem run_sysBYOL {n : Nat} {type : TrapType} {g : KernelM Unit}
    (htype : TrapType.ofWord (d.arg s_a1) = some type) (hg : g = (do
      let lookingAt ← trapArea d.currentProcess type .NEW
      if lookingAt ≠ NULL then
        sysSendToNorthKorea M n
        setTrapArea (← get).data.currentProcess type .OLD (d.arg s_a2)
        setTrapArea (← get).data.currentProcess type .NEW (d.arg s_a3)
      else
        setTrapArea (← get).data.currentProcess type .OLD (d.arg s_a2)
        setTrapArea (← get).data.currentProcess type .NEW (d.arg s_a3))) :
    (sysBYOL M n sysOld).run ⟨h, d⟩ = g.run ⟨h, d⟩ := by
  rw [hg]
  unfold sysBYOL
  rw [bind_data run_arg, Exec.run_bind_ok (run_statesRow htype), bind_data run_arg, bind_data run_arg]
  rfl

/-- A second SYS5 for the same trap. -/
theorem run_sysBYOL_again {n : Nat} {type : TrapType} {p : Pid} (hrep : Represents h q)
    (hcur : d.currentProcess = .to p) (htype : TrapType.ofWord (d.arg s_a1) = some type)
    (hnew : q.states p type .NEW ≠ NULL) : (sysBYOL M n sysOld).run ⟨h, d⟩ = (do
      sysSendToNorthKorea M n
      setTrapArea (← get).data.currentProcess type .OLD (d.arg s_a2)
      setTrapArea (← get).data.currentProcess type .NEW (d.arg s_a3) : KernelM Unit).run ⟨h, d⟩ := by
  rw [run_sysBYOL htype rfl, hcur, Exec.run_bind_ok (run_trapArea hrep),
    if_pos (by simpa using hnew)]

theorem sysBYOL_spec (hrep : Represents h q) (hn : Nucleus.Settled M ⟨q, d⟩)
    (hsome : (TrapType.ofWord (d.arg s_a1)).isSome) :
    Terminates (fun n => (sysBYOL M n sysOld >>= fun _ => putALoadInMeDaddy M sysOld).run ⟨h, d⟩)
      (Service M q d 5) := by
  obtain ⟨type, htype⟩ := Option.isSome_iff_exists.mp hsome
  rcases hcur : d.currentProcess with - | - | p
  · refine .of_completes fun n => .stop (.nobody (by decide) hcur) hrep (Exec.run_bind_error ?_)
    rw [run_sysBYOL htype rfl, hcur, Exec.run_bind_error run_trapArea_null]
  · exact absurd hcur hn.current
  · by_cases hnew : q.states p type .NEW = NULL
    · obtain ⟨h1, h2, hrun1, hrun2, hrep'⟩ := setTrapAreas_spec type (d := d) (p := p)
        (a := d.arg s_a2) (b := d.arg s_a3) hrep
      refine .of_completes fun n => .back (.sesv hcur htype hnew) hrep' (k := ⟨h, d⟩) ?_
      rw [run_sysBYOL htype rfl, hcur, Exec.run_bind_ok (run_trapArea hrep),
        if_neg (by simpa using hnew), bind_get]
      simp only [hcur]
      rw [Exec.run_bind_ok hrun1, bind_get]
      simp only [hcur]
      exact hrun2
    · have hp : p ∉ q.free := fun hf => hn.unplaced p hcur (Queues.mem_placed.mpr (Or.inl hf))
      obtain ⟨l, hl⟩ := hn.wf.acyclic.exists_postorder p
      have hkill : Terminates (fun n => (do
          sysSendToNorthKorea M n
          setTrapArea (← get).data.currentProcess type .OLD (d.arg s_a2)
          setTrapArea (← get).data.currentProcess type .NEW (d.arg s_a3)
          putALoadInMeDaddy M sysOld : KernelM Unit).run ⟨h, d⟩) (Service M q d 5) := by
        refine terminates_kill (fun _ => .trap) hrep hn.wf hcur hp hn.keys hl
          (fun _ h' d' hnull => ?_) (.sesvKill hcur htype hnew hl)
        rw [bind_get]
        simp only [hnull]
        exact Exec.run_bind_error run_setTrapArea_null
      refine hkill.congr fun n => ?_
      rw [Exec.run_bind_congr (run_sysBYOL_again hrep hcur htype hnew)]
      simp only [bind_assoc]

theorem sysSendToNorthKorea_spec (hrep : Represents h q) (hn : Nucleus.Settled M ⟨q, d⟩) :
    Terminates (fun n =>
      (sysSendToNorthKorea M n >>= fun _ => putALoadInMeDaddy M sysOld).run ⟨h, d⟩)
      (Service M q d 2) := by
  rcases hcur : d.currentProcess with - | - | p
  · exact terminates_kill_nobody hrep hcur (.nobody (by decide) hcur)
  · exact absurd hcur hn.current
  · have hp : p ∉ q.free := fun hf => hn.unplaced p hcur (Queues.mem_placed.mpr (Or.inl hf))
    obtain ⟨l, hl⟩ := hn.wf.acyclic.exists_postorder p
    refine terminates_kill resumeCaller hrep hn.wf hcur hp hn.keys hl (fun _ h' d' _ => ?_)
      (.terminate hcur hl)
    rw [run_data_error run_putALoadInMeDaddy_old]
    rfl

/-- Every service does what `Service` says, unless it derails. -/
theorem service_spec {call : Int} (hrep : Represents h q)
    (hn : Nucleus.Settled M ⟨q, d⟩) (hcall : call ≥ CREATE_PROCESS ∧ call ≤ WAITIO)
    (hsome : call = SESV → (TrapType.ofWord (d.arg s_a1)).isSome) :
    Terminates (fun n =>
        (service M n call sysOld >>= fun _ => putALoadInMeDaddy M sysOld).run ⟨h, d⟩)
        (Service M q d call) ∨
      ∃ k, (∀ n, (service M n call sysOld >>= fun _ => putALoadInMeDaddy M sysOld).run ⟨h, d⟩ =
        .error .trap k) ∧ Derails q d call k := by
  have hlo : 1 ≤ call := hcall.1
  have hhi : call ≤ 8 := hcall.2
  have hcases : call = 1 ∨ call = 2 ∨ call = 3 ∨ call = 4 ∨ call = 5 ∨ call = 6 ∨ call = 7 ∨
      call = 8 := by omega
  rcases hcases with rfl | rfl | rfl | rfl | rfl | rfl | rfl | rfl
  · exact (sysCreate_spec hrep hn).imp (fun hdone => .of_completes fun _ => hdone)
      fun ⟨k, hk, hderails⟩ => ⟨k, fun _ => hk, hderails⟩
  · exact .inl (sysSendToNorthKorea_spec hrep hn)
  · exact .inl (.of_completes fun _ => sysSignal_spec hrep hn)
  · exact .inl (.of_completes fun _ => sysWait_spec hrep hn)
  · exact .inl (sysBYOL_spec hrep hn (hsome rfl))
  · exact .inl (.of_completes fun _ => sysGetCPUTime_spec hrep hn)
  · exact (sysWaitForClock_spec hrep hn).imp (fun hdone => .of_completes fun _ => hdone)
      fun ⟨k, hk, hderails⟩ => ⟨k, fun _ => hk, hderails⟩
  · exact .inl (.of_completes fun _ => sysGoPowerRangers_spec hrep hn)

end Kaya
