import Kaya.Phase3.Program

open Exec

namespace Kaya

open Code

variable (S : Setup)

/-- `RAMTOP - ((SWAPSIZE + 3)*PAGESIZE)` -/
def SWAPPOOL : Word := S.RAMTOP - BitVec.ofNat 32 ((S.SWAPSIZE + 3) * PAGESIZE)

/-- The address of a frame of the swap pool. -/
def swapAddress (newFrame : Nat) : Word := SWAPPOOL S + BitVec.ofNat 32 (newFrame * PAGESIZE)

def spinTheBottle : Code Nat := do
  let next := ((← getNext) + 1) % S.SWAPSIZE
  setNext next
  return next

/-- A seek command to a disk. -/
def seekCommand (diskNo cylinder : Word) : Command where
  devNum := diskNo
  d_data0 := none
  command := (cylinder <<< 8) ||| DISK_SEEKCYL
  transm := false
  line := BitVec.ofNat 32 DISKINT
  device := diskNo
  direction := 0

/-- A transfer between a disk and a page of the RAM. -/
def blockCommand (diskNo head sector isRead address : Word) : Command where
  devNum := diskNo
  d_data0 := some address
  command := (head <<< 16) ||| (sector <<< 8) ||| isRead
  transm := false
  line := BitVec.ofNat 32 DISKINT
  device := diskNo
  direction := 0

def readWriteBacking (cylinder sector head isRead address : Word) : Code Unit := do
  Prog.when (isRead ≠ DISK_WRITEBLK ∧ isRead ≠ DISK_READBLK) panic
  passeren (.mutexArray DISK0)
  let diskStatus ← waitio (seekCommand DISK0 cylinder)
  Prog.when (diskStatus = READY) do
    let _ ← waitio (blockCommand DISK0 head (sector - 1) isRead address)
  verhogen (.mutexArray DISK0)

/-- Gives the frame of a terminated process back. `nVALID` is zero, so the entry
stays as it is. -/
def releaseFrame (ID : Word) (index : Nat) : Code Unit := do
  let frame ← getSwap index
  Prog.when (frame.sw_asid = ID) do
    setEntryLO frame.sw_pte ((← getEntryLO frame.sw_pte) ||| nVALID)
    setSwap index { frame with sw_asid := -1 }

/-- Ends a user process. -/
def meIRL (ID : Word) : Code Unit := do
  passeren .swap
  (List.range S.SWAPSIZE).forM (releaseFrame ID)
  verhogen .swap
  verhogen .masterSem
  terminateProcess

def vmPrgmHandler (ID : Word) : Code Unit := meIRL S ID

/-- Writes the page in a frame back, unless the frame is free. The mask `nVALID`
clears the whole entry. -/
def evict (newFrame : Nat) : Code Unit := do
  let frame ← getSwap newFrame
  Prog.when (frame.sw_asid ≠ -1) do
    setEntryLO frame.sw_pte ((← getEntryLO frame.sw_pte) &&& nVALID)
    readWriteBacking frame.sw_pgNum frame.sw_asid DISK0 DISK_WRITEBLK (swapAddress S newFrame)

/-- Enters a page into its frame and its page table. -/
def validate (missingASID missingSegment missingPage : Word) (newFrame : Nat) : Code Unit := do
  if missingSegment = 3 then
    setSwap newFrame ⟨missingASID, missingPage, missingSegment, .kuSeg3 missingPage⟩
    setEntryLO (.kuSeg3 missingPage) (swapAddress S newFrame ||| VALID ||| DIRTY ||| GLOBAL)
  else
    setSwap newFrame ⟨missingASID, missingPage, missingSegment, .uProc_pte missingASID missingPage⟩
    setEntryLO (.uProc_pte missingASID missingPage) (swapAddress S newFrame ||| VALID ||| DIRTY)

/-- The part of `vmMemHandler` that `swap` protects. -/
def pager (missingASID missingSegment missingPage : Word) : Code Unit := do
  passeren .swap
  let newFrame ← spinTheBottle S
  evict S newFrame
  readWriteBacking missingPage missingASID DISK0 DISK_READBLK (swapAddress S newFrame)
  validate S missingASID missingSegment missingPage newFrame
  verhogen .swap

/-- The segment of an `entryHI`. -/
def segmentOf (entryHI : Word) : Word := (entryHI &&& GET_SEG) >>> 30

/-- The index in its page table of the page of an `entryHI`: all pages from the
last one on share the last entry. -/
def pageOf (entryHI : Word) : Word :=
  let missingPage := (entryHI &&& GET_VPN) >>> 12
  if BitVec.ofNat 32 KUSEGSIZE ≤ missingPage then BitVec.ofNat 32 (KUSEGSIZE - 1) else missingPage

/-- The handler of TLB traps, where `oldState` is what the nucleus has put into the
old area of the process for them. -/
def vmMemHandler (oldState : State) (missingASID : Word) : Code Unit := do
  let cause := (oldState.s_cause &&& INTCAUSEMASK) >>> 2
  Prog.when (cause ≠ TLBL ∧ cause ≠ TLBS) (meIRL S missingASID)
  pager S missingASID (segmentOf oldState.s_asid) (pageOf oldState.s_asid)

/-- The trap is the fault on a page that is not in a frame. -/
def MissingPage (oldState : State) : Prop :=
  (oldState.s_cause &&& INTCAUSEMASK) >>> 2 = TLBL ∨ (oldState.s_cause &&& INTCAUSEMASK) >>> 2 = TLBS

instance (oldState : State) : Decidable (MissingPage oldState) :=
  inferInstanceAs (Decidable (_ ∨ _))

/-- `copy`: a page, word by word. -/
def copy (source dest : Word) : Code Unit :=
  (List.range (PAGESIZE / 4)).forM fun index => do
    let offset := BitVec.ofNat 32 (4 * index)
    Code.storeWord (dest + offset) (← Code.loadWord (source + offset))

def diskIO (blockAddr diskNo sectNo readWrite ID : Word) : Code Unit := do
  let diskbuff := OSCODEEND + diskNo * BitVec.ofNat 32 PAGESIZE
  Prog.when (diskNo.toInt ≤ 0 ∨ blockAddr < SEG2) (meIRL S ID)
  let head := sectNo.srem 2
  let sectNo := sectNo.sdiv 2
  let sec := sectNo.srem 8
  let cyl := sectNo.sdiv 8
  -- one of the two always holds
  Prog.when (readWrite ≠ DISK_WRITEBLK ∨ readWrite ≠ DISK_READBLK) panic
  passeren (.mutexArray diskNo)
  Prog.when (readWrite = DISK_WRITEBLK) (copy blockAddr diskbuff)
  let status ← waitio (seekCommand diskNo cyl)
  let status ← if status = READY then
      waitio (blockCommand diskNo head sec readWrite diskbuff)
    else pure status
  Prog.when (readWrite = DISK_READBLK) (copy diskbuff blockAddr)
  setOld ID (.s_reg s_v0) status
  verhogen (.mutexArray diskNo)

/-- The condition that `diskIO` tests before it takes the disk always holds. -/
theorem diskIO_guard (readWrite : Word) : readWrite ≠ DISK_WRITEBLK ∨ readWrite ≠ DISK_READBLK := by
  by_cases hwrite : readWrite = DISK_WRITEBLK
  · exact Or.inr (by rw [hwrite]; decide)
  · exact Or.inl hwrite

/-- The loop of `writePrinter` and of `writeTerminal`: for each character a
command, whose status must be `done`. -/
def writeChars (put : BitVec 8 → Command) (done virtAddr : Word) : Nat → Code Unit
  | 0 => return
  | rest + 1 => do
    let status ← waitio (put (← loadByte virtAddr))
    Prog.when (status &&& 0xFF ≠ done) panic
    writeChars put done (virtAddr + 1) rest

def writePrinter (virtAddr len ID : Word) : Code Unit := do
  let devNum := PRINTDEV + (ID - 1)
  passeren (.mutexArray devNum)
  writeChars (fun c => ⟨devNum, some (c.signExtend 32), PRINTCHAR, false, BitVec.ofNat 32 PRNTINT,
    ID - 1, 0⟩) READY virtAddr len.toInt.toNat
  setOld ID (.s_reg s_v0) (BitVec.ofNat 32 len.toInt.toNat)
  verhogen (.mutexArray devNum)

def writeTerminal (virtAddr len ID : Word) : Code Unit := do
  let devNum := TERM0DEV + (ID - 1)
  passeren (.mutexArray (TERMSEMSTART + (ID - 1)))
  writeChars (fun c => ⟨devNum, none, TRANSCHAR ||| (c.signExtend 32 <<< 8), true,
    BitVec.ofNat 32 TERMINT, ID - 1, WRITETERM⟩) TRANSMITCHAR virtAddr len.toInt.toNat
  setOld ID (.s_reg s_v0) (BitVec.ofNat 32 len.toInt.toNat)
  verhogen (.mutexArray (TERMSEMSTART + (ID - 1)))

/-- The loop of `readTerminal`: reads up to the end of the line and answers the
number of characters stored. It stands for at most the given number of rounds. -/
def readChars (get : Command) : Nat → Word → Word → Code Word
  | 0, _, _ => spin
  | n + 1, addr, i => do
    let status ← waitio get
    let char := (status &&& 0xFF00) >>> 8
    if char = 0x0A then
      Prog.when (status &&& 0xFF ≠ 5) panic
      return i
    else
      storeByte addr (BitVec.setWidth 8 char)
      Prog.when (status &&& 0xFF ≠ 5) panic
      readChars get n (addr + 1) (i + 1)

def readTerminal (n : Nat) (addr ID : Word) : Code Unit := do
  let devNum := TERM0DEV + (ID - 1)
  passeren (.mutexArray (TERMREADSEM + (ID - 1)))
  let i ← readChars ⟨devNum, none, RECVCHAR, false, BitVec.ofNat 32 TERMINT, ID - 1, READTERM⟩ n addr 0
  setOld ID (.s_reg s_v0) i
  verhogen (.mutexArray (TERMREADSEM + (ID - 1)))

/-- A V on a semaphore of a process. What `vRemoveBlocked` answers when it finds
nothing is not `FAILURE`. -/
def vSemVirt (semAdd ID : Word) : Code Unit := do
  Code.storeWord semAdd ((← Code.loadWord semAdd) + 1)
  let value ← Code.loadWord semAdd
  Prog.when (value.toInt ≤ 0) do
    let theGivingID ← Code.vRemoveBlocked semAdd
    Prog.when (theGivingID = FAILURE) (meIRL S ID)
    verhogen (.uProc_semAdd theGivingID)

def pSemVirt (semAdd ID : Word) : Code Unit := do
  Code.storeWord semAdd ((← Code.loadWord semAdd) - 1)
  let value ← Code.loadWord semAdd
  Prog.when (value.toInt < 0) do
    let _ ← Code.vInsertBlocked semAdd ID
    passeren (.uProc_semAdd ID)

def delay (seconds ID : Word) : Code Unit := do
  let time := seconds * 1000000
  Prog.when (time.toInt < 0) (meIRL S ID)
  let _ ← Code.vInsertBlocked (S.semAddress ID) ID
  let _ ← Code.insertDelay ((← Code.STCK) + time) ID
  passeren (.uProc_semAdd ID)

/-- The handler of the system calls that the nucleus passes up. A call that waits
for a line of input stands for at most `n` characters. -/
def vmSysHandler (n : Nat) (ID : Word) : Code Unit := do
  let callNumber ← getOld ID (.s_reg s_a0)
  let a1 ← getOld ID (.s_reg s_a1)
  let a2 ← getOld ID (.s_reg s_a2)
  let a3 ← getOld ID (.s_reg s_a3)
  if callNumber = READTERMINAL then readTerminal n a1 ID
  else if callNumber = WRITETERMINAL then writeTerminal a1 a2 ID
  else if callNumber = VSEMVIRT then vSemVirt S a1 ID
  else if callNumber = PSEMVIRT then pSemVirt a1 ID
  else if callNumber = DELAY then delay S a1 ID
  else if callNumber = DISK_PUT then diskIO S a1 a2 a3 DISK_WRITEBLK ID
  else if callNumber = DISK_GET then diskIO S a1 a2 a3 DISK_READBLK ID
  else if callNumber = WRITEPRINTER then writePrinter a1 a2 ID
  else if callNumber = GET_TOD then do
    setOld ID (.s_reg s_v0) (← Code.STCK)
  else if callNumber = TERMINATE then meIRL S ID
  else return

end Kaya
