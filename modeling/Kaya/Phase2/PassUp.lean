import Kaya.Phase2.Services

open Links

namespace Kaya

variable {M : Machine} {h : Heap} {q : Queues} {d : Data} {p : Pid}

/-- Without a current process a trap leads to the next one. -/
theorem run_pullUpAndDie_null {n : Nat} {type : TrapType} (hcur : d.currentProcess = .null) :
    (pullUpAndDie M n type).run ⟨h, d⟩ = .error .trap ⟨h, d⟩ := by
  unfold pullUpAndDie
  rw [bind_get]
  simp only [hcur]
  exact Exec.run_bind_error run_trapArea_null

/-- A trap of the process `p`: the cause in its old area is loaded first. -/
theorem run_pullUpAndDie {n : Nat} {type : TrapType} (hrep : Represents h q)
    (hcur : d.currentProcess = .to p) : (pullUpAndDie M n type).run ⟨h, d⟩ = (do
      let _ ← getField M (.mem (q.states p type .OLD)) .s_cause
      if q.states p type .NEW = NULL then
        sysSendToNorthKorea M n
        copyState M (.old type.location)
          (.mem (← trapArea (← get).data.currentProcess type .OLD))
        putALoadInMeDaddy M (.mem (q.states p type .NEW))
      else
        copyState M (.old type.location)
          (.mem (← trapArea (← get).data.currentProcess type .OLD))
        putALoadInMeDaddy M (.mem (q.states p type .NEW)) : KernelM Unit).run ⟨h, d⟩ := by
  unfold pullUpAndDie
  rw [bind_get]
  simp only [hcur]
  rw [Exec.run_bind_ok (run_trapArea hrep), bind_get]
  simp only [hcur]
  rw [Exec.run_bind_ok (run_trapArea hrep)]

theorem run_pullUpAndDie_oldFault {n : Nat} {type : TrapType} (hrep : Represents h q)
    (hcur : d.currentProcess = .to p)
    (hold : M.readable (Field.s_cause.addr (q.states p type .OLD)) = false) :
    (pullUpAndDie M n type).run ⟨h, d⟩ = .error .trap ⟨h, d⟩ := by
  rw [run_pullUpAndDie hrep hcur]
  exact bind_data_error (run_loadWord_trap hold)

/-- A process without a handler is killed. -/
theorem run_pullUpAndDie_die {n : Nat} {type : TrapType} (hrep : Represents h q)
    (hcur : d.currentProcess = .to p)
    (hold : M.readable (Field.s_cause.addr (q.states p type .OLD)) = true)
    (hnew : q.states p type .NEW = NULL) :
    (pullUpAndDie M n type).run ⟨h, d⟩ = (do
      sysSendToNorthKorea M n
      copyState M (.old type.location) (.mem (← trapArea (← get).data.currentProcess type .OLD))
      putALoadInMeDaddy M (.mem (q.states p type .NEW)) : KernelM Unit).run ⟨h, d⟩ := by
  have hget : (getField M (.mem (q.states p type .OLD)) .s_cause).run d =
    .ok (d.mem (Field.s_cause.addr (q.states p type .OLD))) d := run_loadWord_ok hold
  rw [run_pullUpAndDie hrep hcur, bind_data hget, if_pos hnew]

/-- The state of a process with a handler is copied before the handler is loaded. -/
theorem run_pullUpAndDie_copy {n : Nat} {type : TrapType} (hrep : Represents h q)
    (hcur : d.currentProcess = .to p)
    (hold : M.readable (Field.s_cause.addr (q.states p type .OLD)) = true)
    (hnew : q.states p type .NEW ≠ NULL) :
    (pullUpAndDie M n type).run ⟨h, d⟩ = (do
      copyState M (.old type.location) (.mem (q.states p type .OLD))
      putALoadInMeDaddy M (.mem (q.states p type .NEW)) : KernelM Unit).run ⟨h, d⟩ := by
  have hget : (getField M (.mem (q.states p type .OLD)) .s_cause).run d =
    .ok (d.mem (Field.s_cause.addr (q.states p type .OLD))) d := run_loadWord_ok hold
  rw [run_pullUpAndDie hrep hcur, bind_data hget, if_neg hnew, bind_get]
  simp only [hcur]
  rw [Exec.run_bind_ok (run_trapArea hrep)]

/-- The data after the state of a trap has been copied to the process's old area. -/
def Data.passUp (type : TrapType) (old : Word) (d : Data) : Data :=
  { d with mem := storeState d.mem old (d.old type.location) }

theorem run_pullUpAndDie_passUp {n : Nat} {type : TrapType} (hrep : Represents h q)
    (hcur : d.currentProcess = .to p) (hnew : q.states p type .NEW ≠ NULL)
    (hw : M.writableState (q.states p type .OLD) = true) :
    (pullUpAndDie M n type).run ⟨h, d⟩ = (putALoadInMeDaddy M (.mem (q.states p type .NEW)) :
      KernelM Unit).run ⟨h, d.passUp type (q.states p type .OLD)⟩ := by
  have hold := M.readable_of_writable _ (Machine.writableState_iff.mp hw .s_cause)
  rw [run_pullUpAndDie_copy hrep hcur hold hnew, bind_data (run_copyState_old_mem hw)]
  rfl

theorem pullUpAndDie_spec (type : TrapType) (hrep : Represents h q)
    (hn : Nucleus.Settled M ⟨q, d⟩) :
    Terminates (fun n => (pullUpAndDie M n type).run ⟨h, d⟩) (PullUp M q d type) := by
  rcases hcur : d.currentProcess with - | - | p
  · exact .of_completes fun _ => .stop (.nobody hcur) hrep (run_pullUpAndDie_null hcur)
  · exact absurd hcur hn.current
  cases hold : M.readable (Field.s_cause.addr (q.states p type .OLD)) with
  | false =>
    exact .of_completes fun _ =>
      .stop (.oldFault hcur hold) hrep (run_pullUpAndDie_oldFault hrep hcur hold)
  | true =>
    by_cases hnew : q.states p type .NEW = NULL
    · have hp : p ∉ q.free := fun hf => hn.unplaced p hcur (Queues.mem_placed.mpr (Or.inl hf))
      obtain ⟨l, hl⟩ := hn.wf.acyclic.exists_postorder p
      refine .congr (terminates_kill (fun _ => .trap) hrep hn.wf hcur hp hn.keys hl
        (fun _ h' d' hnull => ?_) (.die hcur hold hnew hl))
        fun n => run_pullUpAndDie_die hrep hcur hold hnew
      rw [bind_get]
      simp only [hnull]
      exact Exec.run_bind_error run_trapArea_null
    · refine .of_completes fun n => ?_
      cases hw : M.writableState (q.states p type .OLD) with
      | false =>
        obtain ⟨mem, hrun, hoff⟩ := run_copyState_old_mem_trap d type.location hw
        refine .stop (.copyFault hcur hold hnew hw hoff) hrep ?_
        rw [run_pullUpAndDie_copy hrep hcur hold hnew, bind_data_error hrun]
      | true =>
        cases hr : M.readableState (q.states p type .NEW) with
        | false =>
          refine .stop (.loadFault hcur hnew hw hr) hrep ?_
          rw [run_pullUpAndDie_passUp hrep hcur hnew hw,
            run_data_error (run_putALoadInMeDaddy_mem_trap hr)]
          rfl
        | true =>
          refine .stop (.passUp hcur hnew hw hr) hrep ?_
          rw [run_pullUpAndDie_passUp hrep hcur hnew hw,
            run_data_error (run_putALoadInMeDaddy_mem hr)]
          rfl

/-- What `sysCallHandler` does after a trap, should that return, and for a service. -/
def serve (M : Machine) (n : Nat) (call : Int) : KernelM Unit := do
  setField M sysOld .s_pc ((← getField M sysOld .s_pc) + 4)
  service M n call sysOld
  putALoadInMeDaddy M sysOld

theorem run_sysCallHandler {n : Nat} : (sysCallHandler M n).run ⟨h, d⟩ = (
    if validCall d then
      if userMode d then do
        copyState M sysOld (.old .PGMTRAPOLDAREA)
        setField M (.old .PGMTRAPOLDAREA) .s_cause (RI <<< 2)
        pbgTrapHandler M n
        serve M n (callNumber d)
      else
        serve M n (callNumber d)
    else do
      pullUpAndDie M n .SYSTRAP
      serve M n (callNumber d) : KernelM Unit).run ⟨h, d⟩ := by
  unfold sysCallHandler
  rw [bind_data run_arg]
  by_cases hvalid : validCall d
  · rw [if_pos hvalid, Exec.run_ite]
    refine (if_pos hvalid).trans ?_
    rw [bind_data (show (getField M sysOld .s_status).run d = .ok _ d from rfl)]
    rfl
  · rw [if_neg hvalid, Exec.run_ite]
    exact if_neg hvalid

/-- A service called in user mode is a reserved instruction. -/
theorem run_sysCallHandler_privileged {n : Nat} (hvalid : validCall d) (huser : userMode d) :
    (sysCallHandler M n).run ⟨h, d⟩ =
      (pullUpAndDie M n .PROGTRAP >>= fun _ => serve M n (callNumber d)).run ⟨h, d.reserved⟩ := by
  rw [run_sysCallHandler, if_pos hvalid, if_pos huser, bind_data (run_copyState_old_old (by decide)),
    bind_data run_setField_old]
  simp only [Function.update_self, Function.update_idem]
  rfl

theorem run_sysCallHandler_unknown {n : Nat} (hvalid : ¬ validCall d) :
    (sysCallHandler M n).run ⟨h, d⟩ =
      (pullUpAndDie M n .SYSTRAP >>= fun _ => serve M n (callNumber d)).run ⟨h, d⟩ := by
  rw [run_sysCallHandler, if_neg hvalid]

theorem run_sysCallHandler_service {n : Nat} (hvalid : validCall d) (huser : ¬ userMode d) :
    (sysCallHandler M n).run ⟨h, d⟩ = (do
      service M n (callNumber d) sysOld
      putALoadInMeDaddy M sysOld : KernelM Unit).run ⟨h, d.advance⟩ := by
  rw [run_sysCallHandler, if_pos hvalid, if_neg huser]
  unfold serve
  rw [bind_data (show (getField M sysOld .s_pc).run d = .ok _ d from rfl), bind_data run_setField_old]
  rfl

/-- The handler of system calls: pass up, the reserved instruction, or a service. -/
theorem sysCallHandler_spec (hrep : Represents h q) (hn : Nucleus.Settled M ⟨q, d⟩)
    (hsome : ¬ userMode d → callNumber d = SESV → (TrapType.ofWord (d.arg s_a1)).isSome) :
    Terminates (fun n => (sysCallHandler M n).run ⟨h, d⟩) (Handles M q d .SYSCALL) ∨
      (validCall d ∧ ¬ userMode d ∧ ∃ k, (∀ n, (sysCallHandler M n).run ⟨h, d⟩ = .error .trap k) ∧
        Derails q d.advance (callNumber d) k) := by
  by_cases hvalid : validCall d
  · by_cases huser : userMode d
    · have hpull := (pullUpAndDie_spec .PROGTRAP (d := d.reserved) hrep
        (hn.congr rfl rfl)).mono fun _ _ => Handles.privileged hvalid huser
      exact .inl (hpull.bind.congr fun n => run_sysCallHandler_privileged hvalid huser)
    · have hserve := service_spec (d := d.advance) hrep (hn.congr rfl rfl) hvalid (hsome huser)
      rcases hserve with hdone | ⟨k, hk, hderails⟩
      · have hhandles := hdone.mono fun _ _ => Handles.service hvalid huser
        exact .inl (hhandles.congr fun n => run_sysCallHandler_service hvalid huser)
      · refine .inr ⟨hvalid, huser, k, fun n => ?_, hderails⟩
        exact (run_sysCallHandler_service hvalid huser).trans (hk n)
  · have hpull := (pullUpAndDie_spec .SYSTRAP hrep hn).mono fun _ _ => Handles.unknown hvalid
    exact .inl (hpull.bind.congr fun n => run_sysCallHandler_unknown hvalid)

end Kaya
