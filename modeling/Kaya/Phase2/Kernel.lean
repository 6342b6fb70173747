import Kaya.Phase1.Init
import Kaya.Phase1.Ready

open Links

namespace Kaya

/-- What the nucleus is loaded into: where the linker puts `sem` and `test`, the
size of the RAM, and which words of memory can be read and written by the
nucleus and the processes. The pcb and descriptor tables of the nucleus are not
among these words; `sem` is. -/
structure Machine where
  sem : Word
  test : Word
  RAMTOP : Word
  rom : PcbPtr
  readable : Word → Bool
  writable : Word → Bool
  readable_of_writable : ∀ a, writable a → readable a
  /-- An access to an address that is not a multiple of four is an address error. -/
  aligned : ∀ a, readable a → a.toNat % 4 = 0
  /-- No memory is installed at or above the address `MAXINT`. -/
  below : ∀ a, readable a → a < MAXINT
  sem_writable : ∀ i < TOTALSEM, writable (sem + BitVec.ofNat 32 (4 * i))
  sem_fits : sem.toNat + 4 * TOTALSEM < MAXINT.toNat
  /-- The word of the ROM that is read through a zero pointer is no pcb. -/
  rom_ne : ∀ p, rom ≠ .to p

/-- `&sem[i]` -/
def Machine.semAdd (M : Machine) (i : Word) : Word := M.sem + 4 * i

/-- The state of the nucleus besides the tables of phase 1, and what it shares
with processes and devices: memory, the bus registers and the clock. `clock`
lists the readings of the time of day in the order in which they are taken. -/
structure Data where
  pcb_state : Pid → State
  pcb_time : Pid → Word
  currentProcess : PcbPtr
  processCount : Int
  softBlockCount : Int
  currentTOD : Word
  TODStarted : Word
  TODStopped : Word
  old : OldArea → State
  mem : Word → Word
  interrupt_dev : Nat → Word
  devreg : Nat → Device
  intervalTimer : Int
  timer : Int
  clock : Nat → Word
  readings : Nat

structure Kernel where
  heap : Heap
  data : Data

abbrev DataM : Type → Type := EStateM Stop Data
abbrev KernelM : Type → Type := EStateM Stop Kernel

instance : MonadLift HeapM KernelM where
  monadLift x := Exec.zoom Kernel.heap (fun h k => { k with heap := h }) x

instance : MonadLift DataM KernelM where
  monadLift x := Exec.zoom Kernel.data (fun d k => { k with data := d }) x

def modifyData (f : Data → Data) : DataM Unit := modify f

/-- `STCK`: reads the time of day. -/
def STCK : DataM Word := do
  let d ← get
  modifyData fun d => { d with readings := d.readings + 1 }
  return d.clock d.readings

/-- `LDIT`: restarts the interval timer. -/
def LDIT (t : Int) : DataM Unit := modifyData fun d => { d with intervalTimer := t }

/-- `setTIMER`: restarts the timer of the processor. -/
def setTIMER (t : Int) : DataM Unit := modifyData fun d => { d with timer := t }

section

variable (M : Machine)

def loadWord (a : Word) : DataM Word := do
  if M.readable a then
    return (← get).mem a
  else
    throw .trap

def storeWord (a v : Word) : DataM Unit := do
  if M.writable a then
    modifyData fun d => { d with mem := Function.update d.mem a v }
  else
    throw .trap

/-- The pcb a pointer is dereferenced to. -/
def derefPcb (p : PcbPtr) : DataM Pid :=
  match p with
  | .to i => pure i
  | .null => throw .trap
  | .zero => throw .undefined

/-- Loads one word of a `state_t`. -/
def getField (ref : StateRef) (f : Field) : DataM Word :=
  match ref with
  | .old area => return ((← get).old area).get f
  | .pcb_state p => do
    let i ← derefPcb p
    return ((← get).pcb_state i).get f
  | .mem a => loadWord M (f.addr a)

/-- Stores one word of a `state_t`. -/
def setField (ref : StateRef) (f : Field) (w : Word) : DataM Unit :=
  match ref with
  | .old area =>
    modifyData fun d => { d with old := Function.update d.old area ((d.old area).set f w) }
  | .pcb_state p => do
    let i ← derefPcb p
    modifyData fun d =>
      { d with pcb_state := Function.update d.pcb_state i ((d.pcb_state i).set f w) }
  | .mem a => storeWord M (f.addr a) w

/-- Copies a state word by word. -/
def copyState (old new : StateRef) : DataM Unit :=
  Field.all.forM fun f => do setField M new f (← getField M old f)

/-- The state `LDST` finds at an address. -/
def loadState (ref : StateRef) : DataM State :=
  Field.all.foldlM (fun st f => return st.set f (← getField M ref f)) State.zero

/-- Loads a state: control goes to a process. -/
def putALoadInMeDaddy (ref : StateRef) : DataM Unit := do
  throw (.LDST ref (← loadState M ref))

end

end Kaya
