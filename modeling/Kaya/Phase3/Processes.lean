import Kaya.Exec.Run
import Kaya.Exec.Threads
import Kaya.Phase3.Avsl
import Kaya.Phase3.InitProc

open Exec

namespace Kaya

/-- What the user processes share besides the semaphores: the variables of phase
3, the disk that backs their pages, their tapes, and the pages of the RAM, with
contents in `β`. The waiting lists have one node more than there are pcbs. -/
structure Phase3 (β : Type) where
  /-- The process has left its initial state. -/
  started : Word → Bool
  /-- `uProcs[ID-1].uProc_states[SYSTRAP][OLD]` -/
  old : Word → State
  swapPool : Nat → Swap
  kuSeg3 : Word → Word
  uProc_pte : Word → Word → Word
  next : Nat
  adl : Adl (Fin (MAXPROC + 1))
  avsl : Avsl (Fin (MAXPROC + 1))
  page : Word → β
  /-- The cylinder that disk 0 has been moved to. -/
  cylinder : Word
  /-- The contents of disk 0 by cylinder, head and sector. -/
  block : Word → Word → Word → β
  /-- The blocks of the tape of a process that have not been read. -/
  tape : Word → List β
  /-- `d_data1` of a device register. -/
  data1 : Word → Word

namespace Phase3

variable {β : Type}

/-- No page in a frame, free lists that are empty, and `x` in all pages and blocks. -/
def blank (x : β) : Phase3 β where
  started _ := false
  old _ := State.zero
  swapPool _ := ⟨-1, 0, 0, .null⟩
  kuSeg3 _ := GLOBAL ||| DIRTY
  uProc_pte _ _ := DIRTY
  next := 0
  adl := ⟨fun _ => .null, fun _ => 0, fun _ => 0, .null, .null⟩
  avsl := ⟨fun _ => .null, fun _ => .null, fun _ => 0, fun _ => 0, .null, .null⟩
  page _ := x
  cylinder := 0
  block _ _ _ := x
  tape _ := []
  data1 _ := 0

def entryLO (s : Phase3 β) : PtePtr → Word
  | .null => 0
  | .kuSeg3 page => s.kuSeg3 page
  | .uProc_pte ID page => s.uProc_pte ID page

def setEntryLO (s : Phase3 β) (pte : PtePtr) (v : Word) : Phase3 β :=
  match pte with
  | .null => s
  | .kuSeg3 page => { s with kuSeg3 := Function.update s.kuSeg3 page v }
  | .uProc_pte ID page =>
    { s with uProc_pte :=
        Function.update s.uProc_pte ID (Function.update (s.uProc_pte ID) page v) }

def setPage (s : Phase3 β) (a : Word) (x : β) : Phase3 β :=
  { s with page := Function.update s.page a x }

def setBlock (s : Phase3 β) (cylinder head sector : Word) (x : β) : Phase3 β :=
  { s with block := fun c h k =>
      if c = cylinder ∧ h = head ∧ k = sector then x else s.block c h k }

/-- The entry that maps an address for a process. -/
def pteOf (ID a : Word) : PtePtr :=
  if segmentOf a = 3 then .kuSeg3 (pageOf a) else .uProc_pte ID (pageOf a)

/-- The page of the RAM that an address leads a process to. User addresses are
mapped; kernel addresses are not. -/
def pageAt (s : Phase3 β) (ID a : Word) : Word :=
  (if SEG2 ≤ a then s.entryLO (pteOf ID a) else a) &&& 0xFFFFF000

/-- The address can be accessed without a trap. -/
def Mapped (s : Phase3 β) (ID a : Word) : Prop :=
  SEG2 ≤ a → s.entryLO (pteOf ID a) &&& VALID = VALID

instance (s : Phase3 β) (ID a : Word) : Decidable (s.Mapped ID a) :=
  inferInstanceAs (Decidable (_ → _))

/-- What a device has done once it is ready after a command. Only disk 0 and the
tapes matter here. -/
inductive Done (s : Phase3 β) : Command → Phase3 β → Prop where
  | seek {c : Command} : c.devNum = DISK0 → c.command &&& 0xFF = DISK_SEEKCYL →
      Done s c { s with cylinder := c.command >>> 8 }
  | read {c : Command} {a : Word} : c.devNum = DISK0 → c.command &&& 0xFF = DISK_READBLK →
      c.d_data0 = some a →
      Done s c (s.setPage a
        (s.block s.cylinder (c.command >>> 16) ((c.command >>> 8) &&& 0xFF)))
  | write {c : Command} {a : Word} : c.devNum = DISK0 → c.command &&& 0xFF = DISK_WRITEBLK →
      c.d_data0 = some a →
      Done s c (s.setBlock s.cylinder (c.command >>> 16) ((c.command >>> 8) &&& 0xFF) (s.page a))
  | tape {c : Command} {a ID : Word} {x : β} {rest : List β} : c.devNum = tapeNumber ID →
      c.line = BitVec.ofNat 32 TAPEINT → c.command = DISK_READBLK → c.d_data0 = some a →
      s.tape ID = x :: rest →
      Done s c { s.setPage a x with
        tape := Function.update s.tape ID rest
        data1 := Function.update s.data1 (tapeNumber ID) (if rest = [] then 0 else TAPE_EOB) }
  | other {c : Command} : c.devNum ≠ DISK0 → c.line ≠ BitVec.ofNat 32 TAPEINT → Done s c s

end Phase3

/-- The inner loop of `delayDaemon`, for at most the given number of rounds. -/
def wakeLoop (theClock : Word) : Nat → Code Unit
  | 0 => Code.spin
  | n + 1 => do
    let time ← Code.headDelayTime
    let time' ← Code.headDelayTime
    if time.toInt ≤ theClock.toInt ∧ time' ≠ FAILURE then
      let ID ← Code.removeDelay
      Prog.when (ID = FAILURE) Code.panic
      Code.verhogen (.uProc_semAdd ID)
      wakeLoop theClock n
    else return

/-- `delayDaemon` from one SYS7 to the next. -/
def delayDaemon (n : Nat) : Code Unit := do
  wakeLoop (← Code.STCK) n

/-- How a user process enters code of phase 3: its boot code, a system call or a
trap that the nucleus passes up with the state at that time, or for an
instruction of its own that stores to its memory; and the daemon. -/
inductive UserEntry where
  | daemon (n : Nat)
  | boot (n : Nat)
  | call (n : Nat) (st : State)
  | tlb (st : State)
  | program
  | store (a : Word)

/-- The operation accesses memory through a pointer that a process has passed. -/
def Op.isAccess : Op → Bool
  | loadWord _ => true
  | storeWord _ _ => true
  | loadByte _ => true
  | storeByte _ _ => true
  | _ => false

section

variable {β : Type} (S : Setup) {ID : Word}

/-- The numbers of the user processes. -/
def Setup.IsProcess (ID : Word) : Prop := 1 ≤ ID ∧ ID ≤ BitVec.ofNat 32 S.MAXUSERPROC

instance (ID : Word) : Decidable (S.IsProcess ID) := inferInstanceAs (Decidable (_ ∧ _))

variable {S} in
theorem Setup.IsProcess.le (h : S.IsProcess ID) : 1 ≤ ID.toNat ∧ ID.toNat ≤ S.MAXUSERPROC := by
  have hle : ID.toNat ≤ (BitVec.ofNat 32 S.MAXUSERPROC).toNat := h.2
  rw [BitVec.toNat_ofNat] at hle
  exact ⟨h.1, hle.trans (Nat.mod_le _ _)⟩

variable {S} in
theorem Setup.IsProcess.ne_neg_one (h : S.IsProcess ID) : ID ≠ -1 := by
  rintro rfl
  have hle : (2 ^ 32 - 1 : Nat) ≤ S.MAXUSERPROC := h.le.2
  have hmax : S.MAXUSERPROC ≤ 20 := S.processes
  omega

/-- A V beyond the end of `uProcs` changes a word of something else. -/
def opKind : Op → Kind Sem
  | .passeren s => .passeren s
  | .verhogen (.uProc_semAdd ID) =>
    if S.IsProcess ID then .verhogen (.uProc_semAdd ID) else .other
  | .verhogen s => .verhogen s
  | .terminateProcess => .exit
  | .panic => .halt
  | _ => .other

/-- `swap` and the entries of `mutexArray` are mutexes. -/
def Sem.isMutex : Sem → Bool
  | swap => true
  | mutexArray _ => true
  | _ => false

def userProgram (ID : Word) : UserEntry → Code Unit
  | .daemon n => delayDaemon n
  | .boot n => uProcInit n ID
  | .call n _ => vmSysHandler S n ID
  | .tlb st => vmMemHandler S st ID
  | .program => vmPrgmHandler S ID
  | .store _ => pure ()

/-- The process executes its own instructions. -/
def InUserMode (s : Phase3 β) (ID : Word) (fs : List (Frame Sem Op Op.Answer)) : Prop :=
  S.IsProcess ID ∧ fs = [] ∧ s.started ID = true

/-- The process executes its own instructions, or a handler is about to access
memory for it. A trap at the stack of a handler is left out: that of the handler of
program traps starts at 1, and its first push traps again, for ever. -/
def CanTrap (s : Phase3 β) (ID : Word) (fs : List (Frame Sem Op Op.Answer)) : Prop :=
  InUserMode S s ID fs ∨
    ∃ o k held fs', fs = ⟨.call o k, held⟩ :: fs' ∧ o.isAccess = true

/-- When a user process can enter code of phase 3. -/
inductive UserEnters (ID : Word) :
    UserEntry → List (Frame Sem Op Op.Answer) → Phase3 β → Phase3 β → Prop where
  | daemon {n : Nat} {s : Phase3 β} : ID = BitVec.ofNat 32 (S.MAXUSERPROC + 2) →
      UserEnters ID (.daemon n) [] s s
  | boot {n : Nat} {s : Phase3 β} : S.IsProcess ID → s.started ID = false →
      UserEnters ID (.boot n) [] s { s with started := Function.update s.started ID true }
  | call {n : Nat} {st : State} {fs : List (Frame Sem Op Op.Answer)} {s : Phase3 β} :
      InUserMode S s ID fs →
      UserEnters ID (.call n st) fs s { s with old := Function.update s.old ID st }
  | tlb {st : State} {fs : List (Frame Sem Op Op.Answer)} {s : Phase3 β} : CanTrap S s ID fs →
      UserEnters ID (.tlb st) fs s s
  | program {fs : List (Frame Sem Op Op.Answer)} {s : Phase3 β} : CanTrap S s ID fs →
      UserEnters ID .program fs s s
  | store {a : Word} {x : β} {fs : List (Frame Sem Op Op.Answer)} {s : Phase3 β} :
      InUserMode S s ID fs → SEG2 ≤ a → s.Mapped ID a →
      UserEnters ID (.store a) fs s (s.setPage (s.pageAt ID a) x)

/-- What an operation does to the state that the processes share. A pointer that
leads to kernel memory, or a V beyond `uProcs`, may change anything. -/
inductive Acts (ID : Word) : (o : Op) → (Sem → Int) × Phase3 β → o.Answer →
    (Sem → Int) × Phase3 β → Prop where
  | getOld {p : Word} {f : Field} {v : Sem → Int} {s : Phase3 β} :
      Acts ID (.getOld p f) (v, s) ((s.old p).get f) (v, s)
  | setOld {p : Word} {f : Field} {w : Word} {v : Sem → Int} {s : Phase3 β} :
      Acts ID (.setOld p f w) (v, s) ()
        (v, { s with old := Function.update s.old p ((s.old p).set f w) })
  | loadWord {a w : Word} {v : Sem → Int} {s : Phase3 β} : s.Mapped ID a →
      Acts ID (.loadWord a) (v, s) w (v, s)
  | loadByte {a : Word} {b : BitVec 8} {v : Sem → Int} {s : Phase3 β} : s.Mapped ID a →
      Acts ID (.loadByte a) (v, s) b (v, s)
  | storeWord {a w : Word} {x : β} {v : Sem → Int} {s : Phase3 β} : s.Mapped ID a →
      S.vars a = false →
      Acts ID (.storeWord a w) (v, s) () (v, s.setPage (s.pageAt ID a) x)
  | storeByte {a : Word} {b : BitVec 8} {x : β} {v : Sem → Int} {s : Phase3 β} : s.Mapped ID a →
      S.vars a = false →
      Acts ID (.storeByte a b) (v, s) () (v, s.setPage (s.pageAt ID a) x)
  | clobberWord {a w : Word} {v v' : Sem → Int} {s s' : Phase3 β} : S.vars a = true →
      Acts ID (.storeWord a w) (v, s) () (v', s')
  | clobberByte {a : Word} {b : BitVec 8} {v v' : Sem → Int} {s s' : Phase3 β} : S.vars a = true →
      Acts ID (.storeByte a b) (v, s) () (v', s')
  | beyond {x : Sem} {v v' : Sem → Int} {s s' : Phase3 β} :
      Acts ID (.verhogen x) (v, s) () (v', s')
  | STCK {w : Word} {v : Sem → Int} {s : Phase3 β} : Acts ID .STCK (v, s) w (v, s)
  | getSwap {i : Nat} {v : Sem → Int} {s : Phase3 β} :
      Acts ID (.getSwap i) (v, s) (s.swapPool i) (v, s)
  | setSwap {i : Nat} {x : Swap} {v : Sem → Int} {s : Phase3 β} :
      Acts ID (.setSwap i x) (v, s) ()
        (v, { s with swapPool := Function.update s.swapPool i x })
  | getEntryLO {p : PtePtr} {v : Sem → Int} {s : Phase3 β} :
      Acts ID (.getEntryLO p) (v, s) (s.entryLO p) (v, s)
  | setEntryLO {p : PtePtr} {w : Word} {v : Sem → Int} {s : Phase3 β} :
      Acts ID (.setEntryLO p w) (v, s) () (v, s.setEntryLO p w)
  | getNext {v : Sem → Int} {s : Phase3 β} : Acts ID .getNext (v, s) s.next (v, s)
  | setNext {n : Nat} {v : Sem → Int} {s : Phase3 β} :
      Acts ID (.setNext n) (v, s) () (v, { s with next := n })
  | ready {c : Command} {v : Sem → Int} {s s' : Phase3 β} : s.Done c s' →
      Acts ID (.waitio c) (v, s) READY (v, s')
  | answers {c : Command} {w : Word} {v : Sem → Int} {s : Phase3 β} : w ≠ READY →
      Acts ID (.waitio c) (v, s) w (v, s)
  | getData1 {d : Word} {v : Sem → Int} {s : Phase3 β} :
      Acts ID (.getData1 d) (v, s) (s.data1 d) (v, s)
  | vInsertBlocked {a p : Word} {r : Bool} {v : Sem → Int} {s : Phase3 β}
      {l : Avsl (Fin (MAXPROC + 1))} :
      (Kaya.vInsertBlocked a p).run s.avsl = .ok r l →
      Acts ID (.vInsertBlocked a p) (v, s) r (v, { s with avsl := l })
  | vRemoveBlocked {a r : Word} {v : Sem → Int} {s : Phase3 β} {l : Avsl (Fin (MAXPROC + 1))} :
      Returns (fun n => Kaya.vRemoveBlocked n a) s.avsl r l →
      Acts ID (.vRemoveBlocked a) (v, s) r (v, { s with avsl := l })
  | insertDelay {t p : Word} {r : Bool} {v : Sem → Int} {s : Phase3 β}
      {l : Adl (Fin (MAXPROC + 1))} :
      Returns (fun n => Kaya.insertDelay n t p) s.adl r l →
      Acts ID (.insertDelay t p) (v, s) r (v, { s with adl := l })
  | headDelayTime {r : Word} {v : Sem → Int} {s : Phase3 β} {l : Adl (Fin (MAXPROC + 1))} :
      Kaya.headDelayTime.run s.adl = .ok r l → Acts ID .headDelayTime (v, s) r (v, s)
  | removeDelay {r : Word} {v : Sem → Int} {s : Phase3 β} {l : Adl (Fin (MAXPROC + 1))} :
      Kaya.removeDelay.run s.adl = .ok r l → Acts ID .removeDelay (v, s) r (v, { s with adl := l })

/-- The user processes as threads. -/
def userThreads : Threads Word Sem UserEntry Op Op.Answer (Phase3 β) where
  kind := opKind S
  mutex := Sem.isMutex
  program := userProgram S
  enters := UserEnters S
  act := Acts S

end

end Kaya
