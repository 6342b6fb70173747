import Kaya.Phase2.Scheduler

open Links

namespace Kaya

variable (M : Machine)

/-- The kernel before `main`, with everything static zero. -/
def Kernel.bss (mem : Word → Word) (clock : Nat → Word) : Kernel where
  heap := Heap.bss M.rom
  data := {
    pcb_state _ := State.zero
    pcb_time _ := 0
    currentProcess := .zero
    processCount := 0
    softBlockCount := 0
    currentTOD := 0
    TODStarted := 0
    TODStopped := 0
    old _ := State.zero
    mem := mem
    interrupt_dev _ := 0
    devreg _ := ⟨0, 0, 0, 0⟩
    intervalTimer := 0
    timer := 0
    clock := clock
    readings := 0 }

/-- Clears the device semaphores and the clock semaphore. -/
def clearSem : DataM Unit :=
  (List.range TOTALSEM).forM fun temp => storeWord M (M.semAdd (BitVec.ofNat 32 temp)) 0

/-- The new areas, which only the processor reads, are left out. -/
def main : KernelM Unit := do
  (modify fun h => { h with readyQueue := mkEmptyProcQ } : HeapM Unit)
  modifyData fun d =>
    { d with currentProcess := .null, processCount := 0, softBlockCount := 0 }
  clearSem M
  initPcbs
  initASL
  let p ← allocPcb
  modifyData fun d => { d with currentProcess := p }
  setField M (.pcb_state p) (.s_reg s_sp) (M.RAMTOP - BitVec.ofNat 32 PAGESIZE)
  setField M (.pcb_state p) .s_pc M.test
  setField M (.pcb_state p) (.s_reg s_t9) M.test
  setField M (.pcb_state p) .s_status (ALLOFF ||| IEON ||| IMON ||| LTON)
  modifyData fun d => { d with processCount := d.processCount + 1 }
  insertReady p
  modifyData fun d => { d with currentProcess := .null }
  LDIT INTTIME
  scheduler M

end Kaya
