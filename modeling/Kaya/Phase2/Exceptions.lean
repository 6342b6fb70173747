import Kaya.Phase2.Scheduler

open Links

namespace Kaya

variable (M : Machine)

/-! A function that kills processes takes a bound on the depth and number of the
calls of `executeOrderSixtySix` that it makes. -/

/-- Whether the range test takes an address for that of a device semaphore. -/
def deviceRange (semAdd : Word) : Prop := M.semAdd 0 ≤ semAdd ∧ semAdd ≤ M.semAdd TOTALSEM

instance (semAdd : Word) : Decidable (deviceRange M semAdd) :=
  inferInstanceAs (Decidable (_ ∧ _))

/-- The process that makes the call is taken from its parent. -/
def leaveParent (proc : PcbPtr) : KernelM Unit := do
  if (← get).data.currentProcess = proc then
    let _ ← outChild proc

/-- The process is taken out of the ready queue, or out of the queue of its
semaphore, which is then compensated. -/
def leaveQueue (proc : PcbPtr) : KernelM Unit := do
  if (← load Heap.pcb_semAdd proc) = NULL then
    let _ ← outReady proc
  else
    let semAdd ← load Heap.pcb_semAdd proc
    let _ ← outBlocked proc
    if deviceRange M semAdd then
      modifyData fun d => { d with softBlockCount := d.softBlockCount - 1 }
    else
      storeWord M semAdd ((← loadWord M semAdd) + 1)

/-- What `executeOrderSixtySix` does to a process that has no children left. -/
def killProcess (proc : PcbPtr) : KernelM Unit := do
  leaveParent proc
  leaveQueue M proc
  freePcb proc
  modifyData fun d => { d with processCount := d.processCount - 1 }

/-- Kills a process and its descendants: as long as there are children, the
first one is killed and the loop goes on. -/
def executeOrderSixtySix : Nat → PcbPtr → KernelM Unit
  | 0, _ => throw .spin
  | n + 1, proc => do
    if !(← emptyChild proc) then
      executeOrderSixtySix n (← removeChild proc)
      executeOrderSixtySix n proc
    else
      killProcess M proc

/-- SYS1 -/
def sysCreate (state : StateRef) : KernelM Unit := do
  let newProcess ← allocPcb
  if !emptyProcQ newProcess then
    modifyData fun d => { d with processCount := d.processCount + 1 }
    insertChild (← get).data.currentProcess newProcess
    insertReady newProcess
    copyState M (.mem (← getField M state (.s_reg s_a1))) (.pcb_state newProcess)
    setField M state (.s_reg s_v0) SUCCESS
  else
    setField M state (.s_reg s_v0) FAILURE

/-- SYS2 -/
def sysSendToNorthKorea (n : Nat) : KernelM Unit := do
  executeOrderSixtySix M n (← get).data.currentProcess
  scheduler M

/-- SYS3 -/
def sysSignal (state : StateRef) : KernelM Unit := do
  let mutex ← getField M state (.s_reg s_a1)
  storeWord M mutex ((← loadWord M mutex) + 1)
  if (← loadWord M mutex).toInt ≤ 0 then
    let process ← removeBlocked mutex
    if process ≠ .null then
      store Heap.putSemAdd process NULL
      insertReady process

/-- SYS4 -/
def sysWait (state : StateRef) : KernelM Unit := do
  let mutex ← getField M state (.s_reg s_a1)
  storeWord M mutex ((← loadWord M mutex) - 1)
  if (← loadWord M mutex).toInt < 0 then
    copyState M state (.pcb_state (← get).data.currentProcess)
    let _ ← insertBlocked mutex (← get).data.currentProcess
    scheduler M

/-- `pcb_states[type][section]` -/
def trapArea (p : PcbPtr) (type : TrapType) (s : Section) : KernelM Word :=
  return (← load Heap.pcb_states p) type s

def setTrapArea (p : PcbPtr) (type : TrapType) (s : Section) (a : Word) : KernelM Unit := do
  let table ← load Heap.pcb_states p
  store Heap.putStates p fun type' s' => if type' = type ∧ s' = s then a else table type' s'

/-- What an `int` selects in `pcb_states`: one of its rows, or the two fields in front of
the table, `pcb_semAdd` and `pcb_time`. -/
inductive StatesRow where
  | front
  | of (type : TrapType)

/-- The index is not checked. What lies beyond the two fields, in the other fields of the pcb
and in other pcbs, is left out. -/
def statesRow (type : Word) : KernelM StatesRow :=
  if type = -1 then return .front
  else if type = 0 then return .of .TLBTRAP
  else if type = 1 then return .of .PROGTRAP
  else if type = 2 then return .of .SYSTRAP
  else throw .undefined

def rowArea (p : PcbPtr) : StatesRow → Section → KernelM Word
  | .of type, s => trapArea p type s
  | .front, .NEW => load Heap.pcb_semAdd p
  | .front, .OLD => do
    let i ← derefPcb p
    return (← get).data.pcb_time i

def setRowArea (p : PcbPtr) (a : Word) : StatesRow → Section → KernelM Unit
  | .of type, s => setTrapArea p type s a
  | .front, .NEW => store Heap.putSemAdd p a
  | .front, .OLD => do
    let i ← derefPcb p
    modifyData fun d => { d with pcb_time := Function.update d.pcb_time i a }

/-- SYS5 -/
def sysBYOL (n : Nat) (state : StateRef) : KernelM Unit := do
  let type ← statesRow (← getField M state (.s_reg s_a1))
  let old ← getField M state (.s_reg s_a2)
  let new ← getField M state (.s_reg s_a3)
  let lookingAt ← rowArea (← get).data.currentProcess type .NEW
  if lookingAt ≠ NULL then
    sysSendToNorthKorea M n
  setRowArea (← get).data.currentProcess old type .OLD
  setRowArea (← get).data.currentProcess new type .NEW

/-- SYS6 -/
def sysGetCPUTime (state : StateRef) : KernelM Unit := do
  copyState M state (.pcb_state (← get).data.currentProcess)
  let tod ← STCK
  modifyData fun d => { d with currentTOD := tod }
  let total := (← get).data.currentTOD - (← get).data.TODStarted
  bill (← get).data.currentProcess total
  let i ← derefPcb (← get).data.currentProcess
  setField M (.pcb_state (.to i)) (.s_reg s_v0) ((← get).data.pcb_time i)
  let tod ← STCK
  modifyData fun d => { d with TODStarted := tod }
  putALoadInMeDaddy M (.pcb_state (← get).data.currentProcess)

/-- SYS7 -/
def sysWaitForClock (state : StateRef) : KernelM Unit := do
  let semAdd := M.semAdd (TOTALSEM - 1)
  storeWord M semAdd ((← loadWord M semAdd) - 1)
  if (← loadWord M semAdd).toInt < 0 then
    let _ ← insertBlocked semAdd (← get).data.currentProcess
    copyState M state (.pcb_state (← get).data.currentProcess)
    modifyData fun d => { d with softBlockCount := d.softBlockCount + 1 }
  scheduler M

/-- SYS8 -/
def sysGoPowerRangers (state : StateRef) : KernelM Unit := do
  let interruptNumber ← getField M state (.s_reg s_a1)
  let deviceNumber ← getField M state (.s_reg s_a2)
  let isWrite ← getField M state (.s_reg s_a3)
  let deviceIndex := interruptNumber - DEVNOSEM + isWrite
  let deviceIndex := deviceIndex * DEVPERINT
  let deviceIndex := deviceIndex + deviceNumber
  let mutex := M.semAdd deviceIndex
  storeWord M mutex ((← loadWord M mutex) - 1)
  if (← loadWord M mutex).toInt < 0 then
    copyState M state (.pcb_state (← get).data.currentProcess)
    let _ ← insertBlocked mutex (← get).data.currentProcess
    modifyData fun d => { d with softBlockCount := d.softBlockCount + 1 }
    scheduler M

/-- The old area of a trap type. -/
def TrapType.location : TrapType → OldArea
  | .TLBTRAP => .TBLMGMTOLDAREA
  | .PROGTRAP => .PGMTRAPOLDAREA
  | .SYSTRAP => .SYSCALLOLDAREA

/-- The cause word of the process's own old area is loaded for `debugC` before
the test for a missing handler. -/
def pullUpAndDie (n : Nat) (type : TrapType) : KernelM Unit := do
  let lookingAt ← trapArea (← get).data.currentProcess type .NEW
  let _ ← getField M (.mem (← trapArea (← get).data.currentProcess type .OLD)) .s_cause
  if lookingAt = NULL then
    sysSendToNorthKorea M n
  copyState M (.old type.location) (.mem (← trapArea (← get).data.currentProcess type .OLD))
  putALoadInMeDaddy M (.mem lookingAt)

def pbgTrapHandler (n : Nat) : KernelM Unit := pullUpAndDie M n .PROGTRAP

def tlbTrapHandler (n : Nat) : KernelM Unit := pullUpAndDie M n .TLBTRAP

/-- The service with number `call`, if there is one. -/
def service (n : Nat) (call : Int) (state : StateRef) : KernelM Unit :=
  if call = CREATE_PROCESS then sysCreate M state
  else if call = TERMINATE_PROCESS then sysSendToNorthKorea M n
  else if call = VERHOGEN then sysSignal M state
  else if call = PASSEREN then sysWait M state
  else if call = SESV then sysBYOL M n state
  else if call = GETTIME then sysGetCPUTime M state
  else if call = WAITCLOCK then sysWaitForClock M state
  else if call = WAITIO then sysGoPowerRangers M state
  else pure ()

def sysCallHandler (n : Nat) : KernelM Unit := do
  let state := StateRef.old .SYSCALLOLDAREA
  let call := (← getField M state (.s_reg s_a0)).toInt
  if call ≥ CREATE_PROCESS ∧ call ≤ WAITIO then
    if (← getField M state .s_status) &&& KUON ≠ ALLOFF then
      let pgmOld := StateRef.old .PGMTRAPOLDAREA
      copyState M state pgmOld
      setField M pgmOld .s_cause (RI <<< 2)
      pbgTrapHandler M n
  else
    pullUpAndDie M n .SYSTRAP
  setField M state .s_pc ((← getField M state .s_pc) + 4)
  service M n call state
  putALoadInMeDaddy M state

end Kaya
