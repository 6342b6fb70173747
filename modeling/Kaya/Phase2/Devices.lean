import Kaya.Phase2.Services

open Links

namespace Kaya

variable {M : Machine} {h : Heap} {q : Queues} {d : Data} {p x : Pid} {rest : List Pid}

/-- Waking a process keeps the nucleus settled. -/
theorem Nucleus.Settled.wake {d' : Data} (hn : Nucleus.Settled M ⟨q, d⟩)
    (hx : x ∈ FifoMap.values q.asl) (hcur : d'.currentProcess = d.currentProcess)
    (hcount : d'.processCount = d.processCount) : Nucleus.Settled M ⟨q.wake x, d'⟩ where
  wf := hn.wf.wake hx
  current := by simpa [hcur] using hn.current
  count := by
    show d'.processCount + (q.free.length : Int) = MAXPROC
    rw [hcount]
    exact hn.count
  keys := by
    intro e he
    obtain ⟨-, e', he', rfl⟩ := FifoMap.mem_restrict.mp he
    exact hn.keys e' he'
  unplaced := by
    intro p hp
    rw [(Queues.placed_wake hn.wf hx).mem_iff]
    exact hn.unplaced p (hcur ▸ hp)

/-- `headBlocked` on the clock semaphore finds nobody exactly when no semaphore
at that address or a higher one is active. -/
theorem headBlocked_clock (hrep : Represents h q) (hq : q.WF) :
    ∃ r, (headBlocked (clockSemaphore M)).run h = .ok r h ∧
      (r = .null ↔ ∀ b, clockSemaphore M ≤ b → q.waiting b = []) := by
  have hw : M.writable (clockSemaphore M) = true := M.sem_writable 48 (by decide)
  have ha : clockSemaphore M < MAXINT := M.below _ (M.readable_of_writable _ hw)
  refine ⟨_, headBlocked_spec hrep hq ha, ?_⟩
  have hnil := FifoMap.queueFrom_eq_nil_iff (a := clockSemaphore M) hq.asl
  unfold Queues.waiting
  rw [← hnil]
  cases FifoMap.queueFrom (clockSemaphore M) q.asl <;> simp [headPtr]

/-- One round of the clock interrupt's loop. -/
theorem run_wakeUp_succ {n : Nat} {r t : PcbPtr} {h1 : Heap}
    (hhead : (headBlocked (clockSemaphore M)).run h = .ok r h) (hr : r ≠ .null)
    (hremove : (removeBlocked (clockSemaphore M)).run h = .ok t h1) :
    (wakeUp M (n + 1)).run ⟨h, d⟩ = (if t ≠ .null then do
        insertReady t
        bill t (d.clock d.readings - (← get).data.TODStopped)
        modifyData fun d => { d with softBlockCount := d.softBlockCount - 1 }
        wakeUp M n
      else wakeUp M n : KernelM Unit).run ⟨h1, { d with readings := d.readings + 1 }⟩ := by
  conv_lhs => unfold wakeUp
  refine (bind_heap hhead).trans ?_
  rw [if_pos hr]
  refine (bind_heap hremove).trans ?_
  rw [bind_data run_STCK]

theorem run_wakeUp_head {n : Nat} (hrep : Represents h q) (hq : q.WF)
    (hwait : q.waiting (clockSemaphore M) = x :: rest) :
    ∃ h', (wakeUp M (n + 1)).run ⟨h, d⟩ = (wakeUp M n).run ⟨h', d.wake x⟩ ∧
      Represents h' (q.wake x) := by
  obtain ⟨r, hhead, hr⟩ := headBlocked_clock (M := M) hrep hq
  have hne : r ≠ .null := by
    intro hnull
    have hnil := hr.mp hnull (clockSemaphore M) le_rfl
    simp [hwait] at hnil
  obtain ⟨h1, h2, hrun1, -, hrun2, hrep2⟩ := wake_spec hrep hq hwait
  refine ⟨h2, ?_, hrep2⟩
  rw [run_wakeUp_succ hhead hne hrun1, if_pos (by simp), bind_heap hrun2, bind_get,
    bind_data run_bill, bind_modifyData]
  rfl

/-- With a larger address active and nobody to wake, the loop goes on as it is. -/
theorem run_wakeUp_stuck {n : Nat} (hrep : Represents h q) (hq : q.WF)
    (hwait : q.waiting (clockSemaphore M) = [])
    (hlarger : ∃ b, clockSemaphore M < b ∧ q.waiting b ≠ []) :
    (wakeUp M (n + 1)).run ⟨h, d⟩ =
      (wakeUp M n).run ⟨h, { d with readings := d.readings + 1 }⟩ := by
  obtain ⟨r, hhead, hr⟩ := headBlocked_clock (M := M) hrep hq
  obtain ⟨b, hb, hbwait⟩ := hlarger
  have hne : r ≠ .null := fun hnull => hbwait (hr.mp hnull b hb.le)
  have hw : M.writable (clockSemaphore M) = true := M.sem_writable 48 (by decide)
  have ha : clockSemaphore M < MAXINT := M.below _ (M.readable_of_writable _ hw)
  rw [run_wakeUp_succ hhead hne (removeBlocked_nil hrep hq ha hwait), if_neg (by simp)]

/-- The loop never ends while a semaphore with a larger address is active. -/
theorem wakeUp_spin {n : Nat} (hrep : Represents h q) (hn : Nucleus.Settled M ⟨q, d⟩)
    (hlarger : ∃ b, clockSemaphore M < b ∧ q.waiting b ≠ []) :
    ∃ k, (wakeUp M n).run ⟨h, d⟩ = .error .spin k := by
  induction n generalizing h q d with
  | zero => exact ⟨_, rfl⟩
  | succ n ih =>
    cases hwait : q.waiting (clockSemaphore M) with
    | nil =>
      rw [run_wakeUp_stuck hrep hn.wf hwait hlarger]
      exact ih hrep (hn.congr rfl rfl) hlarger
    | cons x rest =>
      obtain ⟨h', hrun, hrep'⟩ := run_wakeUp_head (n := n) (d := d) hrep hn.wf hwait
      rw [hrun]
      have hx : x ∈ q.waiting (clockSemaphore M) := by simp [hwait]
      refine ih hrep' (hn.wake (Queues.mem_values_of_mem_waiting hx) rfl rfl) ?_
      obtain ⟨b, hb, hbwait⟩ := hlarger
      refine ⟨b, hb, ?_⟩
      rwa [Queues.waiting_wake_of_ne hn.wf hx hb.ne']

theorem Nucleus.wakeAll_nil {a : Word} (hwait : q.waiting a = []) :
    Nucleus.wakeAll a ⟨q, d⟩ = ⟨q, d⟩ := by
  simp [Nucleus.wakeAll, hwait]

theorem Nucleus.wakeAll_cons {a : Word} (hq : q.WF) (hwait : q.waiting a = x :: rest) :
    Nucleus.wakeAll a ⟨q, d⟩ = Nucleus.wakeAll a ⟨q.wake x, d.wake x⟩ := by
  simp [Nucleus.wakeAll, hwait, Queues.waiting_wake_head hq hwait]

/-- Otherwise the loop wakes everybody who waits for the clock. -/
theorem wakeUp_spec {n : Nat} (hrep : Represents h q) (hn : Nucleus.Settled M ⟨q, d⟩)
    (hlast : ∀ b, clockSemaphore M < b → q.waiting b = []) :
    if n ≤ (q.waiting (clockSemaphore M)).length then
      ∃ k, (wakeUp M n).run ⟨h, d⟩ = .error .spin k
    else
      ∃ h', (wakeUp M n).run ⟨h, d⟩ =
          .ok () ⟨h', (Nucleus.wakeAll (clockSemaphore M) ⟨q, d⟩).data⟩ ∧
        Represents h' (Nucleus.wakeAll (clockSemaphore M) ⟨q, d⟩).queues ∧
        Nucleus.Settled M (Nucleus.wakeAll (clockSemaphore M) ⟨q, d⟩) := by
  induction n generalizing h q d with
  | zero =>
    rw [if_pos (Nat.zero_le _)]
    exact ⟨_, rfl⟩
  | succ n ih =>
    cases hwait : q.waiting (clockSemaphore M) with
    | nil =>
      rw [if_neg (by simp), Nucleus.wakeAll_nil hwait]
      refine ⟨h, ?_, hrep, hn⟩
      obtain ⟨r, hhead, hr⟩ := headBlocked_clock (M := M) hrep hn.wf
      obtain rfl : r = .null := by
        refine hr.mpr fun b hb => ?_
        rcases hb.lt_or_eq with hb | rfl
        · exact hlast b hb
        · exact hwait
      unfold wakeUp
      exact (bind_heap hhead).trans rfl
    | cons x rest =>
      obtain ⟨h', hrun, hrep'⟩ := run_wakeUp_head (n := n) (d := d) hrep hn.wf hwait
      have hx : x ∈ q.waiting (clockSemaphore M) := by simp [hwait]
      rw [hrun, Nucleus.wakeAll_cons hn.wf hwait]
      have hrest := ih (d := d.wake x) hrep'
        (hn.wake (Queues.mem_values_of_mem_waiting hx) rfl rfl) fun b hb => by
          rw [Queues.waiting_wake_of_ne hn.wf hx hb.ne']
          exact hlast b hb
      rw [Queues.waiting_wake_head hn.wf hwait] at hrest
      simpa using hrest

/-- Leaving an interrupt: the interrupted process is put into the ready queue
and the scheduler is called, which is not expected to return. -/
theorem finish_spec (hrep : Represents h q) (hn : Nucleus.Settled M ⟨q, d⟩) :
    Ends ((finish M >>= fun _ => throw .undefined).run ⟨h, d⟩) (Nucleus.preempt ⟨q, d⟩)
      (.sched fun _ => .undefined) := by
  have hunfold : finish M = (do
      if (← get).data.currentProcess ≠ .null then
        let endTime ← STCK
        modifyData fun d => { d with TODStarted := d.TODStarted + (endTime - d.TODStopped) }
        copyState M (.old .INTPOLDAREA) (.pcb_state (← get).data.currentProcess)
        insertReady (← get).data.currentProcess
        scheduler M
      else scheduler M) := rfl
  rcases hcur : d.currentProcess with - | - | p
  · have hrun : (finish M).run ⟨h, d⟩ = (scheduler M).run ⟨h, d⟩ := by
      rw [hunfold, bind_get, if_neg (by simp [hcur])]
    rw [Exec.run_bind_congr hrun, show Nucleus.preempt ⟨q, d⟩ = ⟨q, d⟩ from by
      simp [Nucleus.preempt, hcur]]
    exact ends_scheduler hrep hn.wf hn.current fun _ _ _ => rfl
  · exact absurd hcur hn.current
  · obtain ⟨h', hrun, hrep'⟩ := insertReady_spec hrep (hn.unplaced p hcur) hn.wf
    have hfinish : (finish M).run ⟨h, d⟩ = (scheduler M).run ⟨h', d.preempt p⟩ := by
      rw [hunfold, bind_get, if_pos (by simp [hcur]), bind_data run_STCK, bind_modifyData, bind_get]
      simp only [hcur]
      rw [bind_data run_copyState_old_pcb, bind_get, bind_heap hrun]
      simp [Data.preempt, hcur]
    rw [Exec.run_bind_congr hfinish, show Nucleus.preempt ⟨q, d⟩ = ⟨q.makeReady p, d.preempt p⟩
      from by simp [Nucleus.preempt, hcur]]
    refine ends_scheduler hrep' (hn.wf.makeReady (hn.unplaced p hcur)) ?_ fun _ _ _ => rfl
    simp [Data.preempt, hcur]

theorem acknowledge_spec {line i : Nat} : (acknowledge line i).run d =
    .ok (ackStatus d line i, ackOffset d line i) (d.acked line i) := by
  unfold acknowledge ackStatus ackOffset Data.acked Device.acked
  by_cases hline : line = TERMINT
  · by_cases hready : (d.devreg i).t_transm_status &&& 15#32 = READY
    · simp [hline, hready]
    · simp [hline, hready]
  · simp [hline]

/-- The scan looks at the same bit in every round. -/
theorem findDevice_eq (bitMap : Word) (rest deviceNum : Nat) :
    findDevice bitMap DEVICEZERO rest deviceNum =
      if bitMap &&& DEVICEZERO = DEVICEZERO then deviceNum else deviceNum + rest := by
  induction rest generalizing deviceNum with
  | zero => simp [findDevice]
  | succ rest ih =>
    rw [findDevice, ih]
    split
    · rfl
    · omega

theorem deviceIndex_eq (line : Nat) : deviceIndex d line = DEVPERINT * (line - DEVNOSEM) +
    if d.interrupt_dev (line - DEVNOSEM) &&& DEVICEZERO = DEVICEZERO then 0 else DEVPERINT := by
  unfold deviceIndex
  rw [findDevice_eq]
  split <;> rfl

theorem Machine.semAdd_ofNat (i : Nat) :
    M.semAdd (BitVec.ofNat 32 i) = M.sem + BitVec.ofNat 32 (4 * i) := by
  unfold Machine.semAdd
  rw [BitVec.ofNat_mul]
  rfl

/-- The V of a device interrupt always finds a semaphore of the array. -/
theorem writable_deviceSemaphore {line : Nat} (hhi : line ≤ TERMINT) :
    M.writable (deviceSemaphore M d line) = true := by
  unfold deviceSemaphore
  rw [Machine.semAdd_ofNat]
  refine M.sem_writable _ ?_
  rw [deviceIndex_eq]
  unfold ackOffset
  have hline : line ≤ 7 := hhi
  split <;> split <;> simp only [DEVPERINT, DEVNOSEM, TOTALSEM] <;> omega

theorem deviceInterrupt_spec {line : Nat} (hrep : Represents h q)
    (hn : Nucleus.Settled M ⟨q, d⟩) (hhi : line ≤ TERMINT) :
    ∃ h', (deviceInterrupt M line).run ⟨h, d⟩ = .ok () ⟨h',
        (Nucleus.signal (deviceSemaphore M d line) ⟨q, d.acked line (deviceIndex d line)⟩).data⟩ ∧
      Represents h' (Nucleus.signal (deviceSemaphore M d line)
        ⟨q, d.acked line (deviceIndex d line)⟩).queues ∧
      Nucleus.Settled M (Nucleus.signal (deviceSemaphore M d line)
        ⟨q, d.acked line (deviceIndex d line)⟩) := by
  have hw := writable_deviceSemaphore (M := M) (d := d) hhi
  have ha : deviceSemaphore M d line < MAXINT := M.below _ (M.readable_of_writable _ hw)
  have hunfold : (deviceInterrupt M line).run ⟨h, d⟩ = (do
      let v ← loadWord M (deviceSemaphore M d line)
      storeWord M (deviceSemaphore M d line) (v + 1)
      let v ← loadWord M (deviceSemaphore M d line)
      if v.toInt ≤ 0 then
        let temp ← removeBlocked (deviceSemaphore M d line)
        if temp ≠ .null then
          store Heap.putSemAdd temp NULL
          modifyData fun d => { d with softBlockCount := d.softBlockCount - 1 }
          insertReady temp : KernelM Unit).run ⟨h, d.acked line (deviceIndex d line)⟩ := by
    unfold deviceInterrupt
    rw [bind_data (show (getDeviceNumber line).run d = .ok _ d from rfl)]
    have hindex : DEVPERINT * (line - DEVNOSEM) +
        findDevice (d.interrupt_dev (line - DEVNOSEM)) DEVICEZERO DEVPERINT 0 =
        deviceIndex d line := rfl
    simp only [hindex, deviceSemaphore]
    rw [bind_data acknowledge_spec]
  generalize deviceSemaphore M d line = a at hw ha hunfold ⊢
  have hn' : Nucleus.Settled M ⟨q, d.acked line (deviceIndex d line)⟩ := hn.congr rfl rfl
  generalize d.acked line (deviceIndex d line) = d' at hunfold hn' ⊢
  rw [hunfold, bind_adjust (f := (· + 1)) hw]
  cases hwait : q.waiting a with
  | nil =>
    have hsignal : Nucleus.signal a ⟨q, d'⟩ = ⟨q, d'.setMem a (d'.mem a + 1)⟩ := by
      simp [Nucleus.signal, hwait]
    rw [hsignal]
    refine ⟨h, ?_, hrep, hn'.congr rfl rfl⟩
    by_cases hv : (d'.mem a + 1).toInt ≤ 0
    · rw [if_pos hv, bind_heap (removeBlocked_nil hrep hn.wf ha hwait), if_neg (by simp)]
      rfl
    · rw [if_neg hv]
      rfl
  | cons x rest =>
    by_cases hv : (d'.mem a + 1).toInt ≤ 0
    · have hsignal : Nucleus.signal a ⟨q, d'⟩ =
          ⟨q.wake x, (d'.setMem a (d'.mem a + 1)).addSoftBlock (-1)⟩ := by
        simp only [Nucleus.signal, hwait]
        rw [if_pos hv]
      rw [hsignal]
      obtain ⟨h1, h2, hrun1, hrun2, hrun3, hrep'⟩ := wake_spec hrep hn.wf hwait
      have hx : x ∈ FifoMap.values q.asl :=
        Queues.mem_values_of_mem_waiting (a := a) (by simp [hwait])
      refine ⟨h2, ?_, hrep', hn'.wake hx rfl rfl⟩
      rw [if_pos hv, bind_heap hrun1, if_pos (by simp), bind_heap hrun2, bind_modifyData,
        run_heap_ok hrun3]
      rfl
    · have hsignal : Nucleus.signal a ⟨q, d'⟩ = ⟨q, d'.setMem a (d'.mem a + 1)⟩ := by
        simp only [Nucleus.signal, hwait]
        rw [if_neg hv]
      rw [hsignal]
      refine ⟨h, ?_, hrep, hn'.congr rfl rfl⟩
      rw [if_neg hv]
      rfl

/-- The interval timer restarts, everybody who waits for the clock is woken and
the semaphore is cleared. -/
theorem clockInterrupt_spec {n : Nat} (hrep : Represents h q) (hn : Nucleus.Settled M ⟨q, d⟩)
    (hlast : ∀ b, clockSemaphore M < b → q.waiting b = []) :
    if n ≤ (q.waiting (clockSemaphore M)).length then
      ∃ k, (clockInterrupt M n).run ⟨h, d⟩ = .error .spin k
    else
      ∃ h' n', n' = Nucleus.wakeAll (clockSemaphore M) ⟨q, { d with intervalTimer := INTTIME }⟩ ∧
        (clockInterrupt M n).run ⟨h, d⟩ = .ok () ⟨h', n'.data.setMem (clockSemaphore M) 0⟩ ∧
        Represents h' n'.queues ∧ Nucleus.Settled M n' := by
  have hw : M.writable (clockSemaphore M) = true := M.sem_writable 48 (by decide)
  have hn' : Nucleus.Settled M ⟨q, { d with intervalTimer := INTTIME }⟩ := hn.congr rfl rfl
  have hloop := wakeUp_spec (n := n) hrep hn' hlast
  unfold clockInterrupt
  rw [bind_data run_LDIT]
  split at hloop
  · rename_i hle
    obtain ⟨k, hk⟩ := hloop
    rw [if_pos hle]
    exact ⟨k, Exec.run_bind_error hk⟩
  · rename_i hlt
    obtain ⟨h', hrun, hrep', hsettled⟩ := hloop
    rw [if_neg hlt]
    refine ⟨h', _, rfl, ?_, hrep', hsettled⟩
    rw [Exec.run_bind_ok hrun]
    exact run_data_ok (run_storeWord_ok hw)

theorem clockInterrupt_spin {n : Nat} (hrep : Represents h q) (hn : Nucleus.Settled M ⟨q, d⟩)
    (hlarger : ∃ b, clockSemaphore M < b ∧ q.waiting b ≠ []) :
    ∃ k, (clockInterrupt M n).run ⟨h, d⟩ = .error .spin k := by
  have hn' : Nucleus.Settled M ⟨q, { d with intervalTimer := INTTIME }⟩ := hn.congr rfl rfl
  obtain ⟨k, hk⟩ := wakeUp_spin (n := n) hrep hn' hlarger
  unfold clockInterrupt
  rw [bind_data run_LDIT]
  exact ⟨k, Exec.run_bind_error hk⟩

theorem deviceLine_range {cause : Word} {line : Nat} (hline : deviceLine cause = some line) :
    DISKINT ≤ line ∧ line ≤ TERMINT := by
  unfold deviceLine at hline
  split_ifs at hline <;> (obtain rfl := Option.some.inj hline; decide)

theorem pendingLine_clock {cause : Word} (hline : pendingLine cause = some 2) :
    cause &&& LINEZERO ≠ LINEZERO ∧ cause &&& LINEONE ≠ LINEONE ∧ cause &&& LINETWO = LINETWO := by
  unfold pendingLine at hline
  by_cases h0 : cause &&& LINEZERO = LINEZERO
  · simp [h0] at hline
  by_cases h1 : cause &&& LINEONE = LINEONE
  · simp [h0, h1] at hline
  by_cases h2 : cause &&& LINETWO = LINETWO
  · exact ⟨h0, h1, h2⟩
  · rw [if_neg h0, if_neg h1, if_neg h2] at hline
    exact absurd (deviceLine_range hline).1 (by decide)

/-- The interrupt handler chooses a branch by the cause. -/
theorem run_ioTrapHandler {n : Nat} {cause : Word} (hcause : (d.old .INTPOLDAREA).s_cause = cause) :
    (ioTrapHandler M n).run ⟨h, d⟩ = (
      if cause &&& LINEZERO = LINEZERO then throw .PANIC
      else if cause &&& LINEONE = LINEONE then do
        finish M
        throw .undefined
      else if cause &&& LINETWO = LINETWO then do
        clockInterrupt M n
        finish M
        throw .undefined
      else match deviceLine cause with
        | none => throw .PANIC
        | some line => do
          deviceInterrupt M line
          finish M : KernelM Unit).run ⟨h, d.stopClock⟩ := by
  subst hcause
  unfold ioTrapHandler
  rw [bind_data run_STCK, bind_modifyData, bind_get]
  rfl

/-- The interrupt handler; nobody waits for it to return. -/
theorem ioTrapHandler_spec (hrep : Represents h q) (hn : Nucleus.Settled M ⟨q, d⟩)
    (hlast : pendingLine (d.old .INTPOLDAREA).s_cause = some 2 →
      ∀ b, clockSemaphore M < b → q.waiting b = []) :
    Terminates (fun n => (ioTrapHandler M n >>= fun _ => throw .undefined).run ⟨h, d⟩)
      (Handles M q d .INTERRUPT) := by
  have hn' : Nucleus.Settled M ⟨q, d.stopClock⟩ := hn.congr rfl rfl
  refine Terminates.mono ?_ fun _ _ => Handles.interrupt
  generalize hcause : (d.old .INTPOLDAREA).s_cause = cause at hlast
  refine .congr ?_ fun n => Exec.run_bind_congr (run_ioTrapHandler hcause)
  by_cases h0 : cause &&& LINEZERO = LINEZERO
  · refine .of_completes fun n => ?_
    rw [if_pos h0]
    exact .stop (.panic (Or.inl (if_pos h0))) hrep rfl
  by_cases h1 : cause &&& LINEONE = LINEONE
  · refine .of_completes fun n => ?_
    rw [if_neg h0, if_pos h1, bind_assoc]
    refine .intro (.quantum ?_) (finish_spec hrep hn')
    rw [pendingLine, if_neg h0, if_pos h1]
  by_cases h2 : cause &&& LINETWO = LINETWO
  · have hline : pendingLine cause = some 2 := by
      rw [pendingLine, if_neg h0, if_neg h1, if_pos h2]
    simp only [if_neg h0, if_neg h1, if_pos h2, bind_assoc]
    refine ⟨(q.waiting (clockSemaphore M)).length + 1, fun n hlt => ?_, fun n hge => ?_⟩
    · have hclock := clockInterrupt_spec (n := n) hrep hn' (hlast hline)
      rw [if_pos (by omega)] at hclock
      obtain ⟨k, hk⟩ := hclock
      exact ⟨k, Exec.run_bind_error hk⟩
    · have hclock := clockInterrupt_spec (n := n) hrep hn' (hlast hline)
      rw [if_neg (by omega)] at hclock
      obtain ⟨h', n', rfl, hrun, hrep', hs⟩ := hclock
      show Completes (EStateM.run _ _) _
      rw [Exec.run_bind_ok hrun]
      exact .intro (.clock hline (hlast hline)) (finish_spec hrep' (hs.congr rfl rfl))
  refine .of_completes fun n => ?_
  rw [if_neg h0, if_neg h1, if_neg h2]
  cases hline : deviceLine cause with
  | none =>
    refine .stop (.panic (Or.inr ?_)) hrep rfl
    rw [pendingLine, if_neg h0, if_neg h1, if_neg h2, hline]
  | some line =>
    obtain ⟨hlo, hhi⟩ := deviceLine_range hline
    obtain ⟨h', hrun, hrep', hs⟩ := deviceInterrupt_spec hrep hn' hhi
    simp only [bind_assoc]
    rw [Exec.run_bind_ok hrun]
    refine .intro (.device ?_ hlo hhi) (finish_spec hrep' hs)
    rw [pendingLine, if_neg h0, if_neg h1, if_neg h2, hline]

/-- A clock interrupt is never left while a semaphore with a larger address is active. -/
theorem ioTrapHandler_spin {n : Nat} (hrep : Represents h q) (hn : Nucleus.Settled M ⟨q, d⟩)
    (hline : pendingLine (d.old .INTPOLDAREA).s_cause = some 2)
    (hlarger : ∃ b, clockSemaphore M < b ∧ q.waiting b ≠ []) :
    ∃ k, (ioTrapHandler M n >>= fun _ => (throw .undefined : KernelM Unit)).run ⟨h, d⟩ =
      .error .spin k := by
  have hn' : Nucleus.Settled M ⟨q, d.stopClock⟩ := hn.congr rfl rfl
  obtain ⟨k, hk⟩ := clockInterrupt_spin (n := n) hrep hn' hlarger
  obtain ⟨h0, h1, h2⟩ := pendingLine_clock hline
  refine ⟨k, (Exec.run_bind_congr (run_ioTrapHandler rfl)).trans ?_⟩
  simp only [if_neg h0, if_neg h1, if_pos h2, bind_assoc]
  exact Exec.run_bind_error hk

end Kaya
