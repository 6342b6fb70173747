import Kaya.Phase2.Scheduler

open Links

namespace Kaya

variable (M : Machine)

/-- Leaves the interrupt: the interrupted process goes to the end of the ready
queue. -/
def finish : KernelM Unit := do
  if (← get).data.currentProcess ≠ .null then
    let endTime ← STCK
    modifyData fun d => { d with TODStarted := d.TODStarted + (endTime - d.TODStopped) }
    copyState M (.old .INTPOLDAREA) (.pcb_state (← get).data.currentProcess)
    insertReady (← get).data.currentProcess
  scheduler M

/-- The loop of `getDeviceNumber`: `checkingDevice << 1` computes a value that
is not kept. -/
def findDevice (bitMap checkingDevice : Word) : Nat → Nat → Nat
  | 0, deviceNum => deviceNum
  | rest + 1, deviceNum =>
    if bitMap &&& checkingDevice = checkingDevice then deviceNum
    else findDevice bitMap checkingDevice rest (deviceNum + 1)

def getDeviceNumber (lineNumber : Nat) : DataM Nat := do
  let lineNumber := lineNumber - DEVNOSEM
  let bitMap := (← get).interrupt_dev lineNumber
  return findDevice bitMap DEVICEZERO DEVPERINT 0

/-- The loop of the clock interrupt. A round that finds nothing to remove is
repeated without end. -/
def wakeUp : Nat → KernelM Unit
  | 0 => throw .spin
  | n + 1 => do
    let semAdd := M.semAdd (TOTALSEM - 1)
    if (← headBlocked semAdd) ≠ .null then
      let temp ← removeBlocked semAdd
      let fin ← STCK
      if temp ≠ .null then
        insertReady temp
        bill temp (fin - (← get).data.TODStopped)
        modifyData fun d => { d with softBlockCount := d.softBlockCount - 1 }
      wakeUp n

/-- The interval timer: wakes the processes that wait for the clock. -/
def clockInterrupt (n : Nat) : KernelM Unit := do
  LDIT INTTIME
  wakeUp M n
  storeWord M (M.semAdd (TOTALSEM - 1)) 0

/-- Reads the status of the device with register index `i` and acknowledges it;
returns the status and what is added to the semaphore index. -/
def acknowledge (interruptNum i : Nat) : DataM (Word × Nat) := do
  let devRegNum := (← get).devreg i
  let put (r : Device) : DataM Unit :=
    modifyData fun d => { d with devreg := Function.update d.devreg i r }
  if interruptNum ≠ TERMINT then
    put { devRegNum with d_command := ACK }
    return (devRegNum.d_status, 0)
  else
    let tranStatus := devRegNum.t_transm_status &&& 0xF
    if tranStatus ≠ READY then
      put { devRegNum with d_data1 := ACK }
      return (devRegNum.t_transm_status, 0)
    else
      put { devRegNum with d_command := ACK }
      return (devRegNum.t_recv_status, DEVPERINT)

/-- A device interrupt on line `interruptNum`, up to the call of `finish`. The
status that was read is dropped. -/
def deviceInterrupt (interruptNum : Nat) : KernelM Unit := do
  let deviceNum ← getDeviceNumber interruptNum
  let i := DEVPERINT * (interruptNum - DEVNOSEM) + deviceNum
  let (_status, offset) ← acknowledge interruptNum i
  let semAdd := M.semAdd (BitVec.ofNat 32 (i + offset))
  storeWord M semAdd ((← loadWord M semAdd) + 1)
  if (← loadWord M semAdd).toInt ≤ 0 then
    let temp ← removeBlocked semAdd
    if temp ≠ .null then
      store Heap.putSemAdd temp NULL
      modifyData fun d => { d with softBlockCount := d.softBlockCount - 1 }
      insertReady temp

/-- The line of a device interrupt, when no line of higher priority is
pending. -/
def deviceLine (cause : Word) : Option Nat :=
  if cause &&& LINETHREE = LINETHREE then some DISKINT
  else if cause &&& LINEFOUR = LINEFOUR then some TAPEINT
  else if cause &&& LINEFIVE = LINEFIVE then some NETWINT
  else if cause &&& LINESIX = LINESIX then some PRNTINT
  else if cause &&& LINESEVEN = LINESEVEN then some TERMINT
  else none

/-- After a timer interrupt the code would go on without a device line, if
`finish` returned. -/
def ioTrapHandler (n : Nat) : KernelM Unit := do
  let tod ← STCK
  modifyData fun d => { d with TODStopped := tod }
  let cause := ((← get).data.old .INTPOLDAREA).s_cause
  if cause &&& LINEZERO = LINEZERO then
    throw .PANIC
  else if cause &&& LINEONE = LINEONE then
    finish M
    throw .undefined
  else if cause &&& LINETWO = LINETWO then
    clockInterrupt M n
    finish M
    throw .undefined
  else match deviceLine cause with
    | none => throw .PANIC
    | some interruptNum =>
      deviceInterrupt M interruptNum
      finish M

end Kaya
