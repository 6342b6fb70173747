import Kaya.Phase2.Kernel

open Links

namespace Kaya

variable (M : Machine)

/-- Adds to the time a process has spent on the processor. -/
def bill (p : PcbPtr) (time : Word) : DataM Unit := do
  let i ← derefPcb p
  modifyData fun d => { d with pcb_time := Function.update d.pcb_time i (d.pcb_time i + time) }

/-- Bills the process that gives up the processor. -/
def billCurrent : KernelM Unit := do
  if (← get).data.currentProcess ≠ .null then
    let tod ← STCK
    modifyData fun d => { d with currentTOD := tod }
    bill (← get).data.currentProcess ((← get).data.currentTOD - (← get).data.TODStarted)

/-- No process is ready. Returns when some process is alive and
`softBlockCount` is negative, or `processCount` is. -/
def noJob : KernelM Unit := do
  modifyData fun d => { d with currentProcess := .null }
  if (← get).data.processCount = 0 then
    throw .HALT
  else if (← get).data.processCount > 0 then
    if (← get).data.softBlockCount = 0 then
      throw .PANIC
    if (← get).data.softBlockCount > 0 then
      throw .WAIT

/-- Starts a process. -/
def startJob (newProc : PcbPtr) : KernelM Unit := do
  modifyData fun d => { d with currentProcess := newProc }
  let tod ← STCK
  modifyData fun d => { d with TODStarted := tod }
  setTIMER QUANTUM
  putALoadInMeDaddy M (.pcb_state newProc)

def scheduler : KernelM Unit := do
  billCurrent
  let newProc ← removeReady
  if newProc = .null then
    noJob
  else
    startJob M newProc

end Kaya
