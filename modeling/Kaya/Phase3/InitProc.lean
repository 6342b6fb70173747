import Kaya.Phase3.VmIOSupport

open Exec

namespace Kaya

open Code

/-- The register of the tape of a user process, and the index of its mutex. -/
def tapeNumber (ID : Word) : Word := BitVec.ofNat 32 ((TAPEINT - DEVNOSEM) * DEVPERINT) + (ID - 1)

/-- The page through which a user process copies its tape. -/
def tapeBuffer (ID : Word) : Word := OSCODEEND + (ID - 1) * BitVec.ofNat 32 PAGESIZE

/-- The command that reads the next block of a tape. -/
def tapeCommand (ID : Word) : Command where
  devNum := tapeNumber ID
  d_data0 := some (tapeBuffer ID)
  command := DISK_READBLK
  transm := false
  line := BitVec.ofNat 32 TAPEINT
  device := ID - 1
  direction := 0

/-- The command that writes a block of the tape to the disk, after a seek. -/
def storeCommand (ID : Word) : Command where
  devNum := DISK0
  d_data0 := some (tapeBuffer ID)
  command := ((ID - 1) <<< 8) ||| DISK_WRITEBLK
  transm := false
  line := BitVec.ofNat 32 DISKINT
  device := DISK0
  direction := 0

/-- Copies one block from the tape to the disk and answers the status of the tape. -/
def loadBlock (ID currentBlock : Word) : Code Word := do
  let tapeStatus ← waitio (tapeCommand ID)
  passeren (.mutexArray DISK0)
  let diskStatus ← waitio (seekCommand DISK0 currentBlock)
  Prog.when (diskStatus = READY) do
    let _ ← waitio (storeCommand ID)
  verhogen (.mutexArray DISK0)
  return tapeStatus

/-- The loop of `uProcInit`, for at most the given number of blocks. -/
def loadTape (ID : Word) : Nat → Word → Code Unit
  | 0, _ => spin
  | n + 1, currentBlock => do
    let tapeStatus ← loadBlock ID currentBlock
    if (← getData1 (tapeNumber ID)) = TAPE_EOB then
      if tapeStatus = READY then loadTape ID n (currentBlock + 1)
      else return
    else return

/-- The boot code of a user process, from its tape to its first instruction; the
three SYS5 before it and the `LDST` behind it are left out. -/
def uProcInit (n : Nat) (ID : Word) : Code Unit := do
  passeren (.mutexArray (tapeNumber ID))
  loadTape ID n 0
  verhogen (.mutexArray (tapeNumber ID))

/-- How `test` ends: it waits for `n` processes, and its SYS2 ends whatever is left. -/
def awaitProcesses : Nat → Code Unit
  | 0 => terminateProcess
  | n + 1 => do
    passeren .masterSem
    awaitProcesses n

end Kaya
