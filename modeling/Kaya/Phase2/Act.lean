import Kaya.Phase2.Interrupts
import Kaya.Phase2.Kill

open Links

namespace Kaya

/-- What a handler does when its own work is done. -/
inductive Next where
  /-- It stops for a reason. -/
  | stop (x : Stop)
  /-- It calls the scheduler. Should that return, control ends as `resume` says. -/
  | sched (resume : Data → Stop)

def Next.finish (next : Next) (n : Nucleus) : Stop × Nucleus :=
  match next with
  | .stop x => (x, n)
  | .sched resume => (n.schedule.1.getD (resume n.schedule.2.data), n.schedule.2)

/-- The state in the SYSCALL old area is loaded. -/
def resumeCaller (d : Data) : Stop := .LDST (.old .SYSCALLOLDAREA) (d.old .SYSCALLOLDAREA)

namespace Data

/-- The process `p` gets the saved state `st`. -/
def give (p : Pid) (st : State) (d : Data) : Data :=
  { d with pcb_state := Function.update d.pcb_state p st }

/-- A register of the state in the SYSCALL old area. -/
def arg (d : Data) (r : Fin STATEREGNUM) : Word := (d.old .SYSCALLOLDAREA).s_reg r

/-- SYS6 on the data: the time is brought up to date and put into the result
register of the saved state. -/
def accounted (p : Pid) (d : Data) : Data :=
  let tod := d.clock d.readings
  let time := d.pcb_time p + (tod - d.TODStarted)
  { d with
    pcb_state := Function.update d.pcb_state p
      ((d.old .SYSCALLOLDAREA).set (.s_reg s_v0) time)
    pcb_time := Function.update d.pcb_time p time
    currentTOD := tod
    TODStarted := d.clock (d.readings + 1)
    readings := d.readings + 2 }

/-- One process woken by the clock interrupt, at the next reading of the clock. -/
def wake (p : Pid) (d : Data) : Data :=
  { d with
    pcb_time := Function.update d.pcb_time p (d.pcb_time p + (d.clock d.readings - d.TODStopped))
    softBlockCount := d.softBlockCount - 1
    readings := d.readings + 1 }

/-- The interrupted process gives up the processor. -/
def preempt (p : Pid) (d : Data) : Data :=
  { d with
    TODStarted := d.TODStarted + (d.clock d.readings - d.TODStopped)
    readings := d.readings + 1
    pcb_state := Function.update d.pcb_state p (d.old .INTPOLDAREA) }

def stopClock (d : Data) : Data :=
  { d with TODStopped := d.clock d.readings, readings := d.readings + 1 }

end Data

namespace Queues

/-- `c` becomes a ready child of `p`. -/
def create (p c : Pid) (q : Queues) : Queues := ((q.alloc c).adopt p c).makeReady c

/-- `p` moves from the queue of its semaphore to the ready queue. -/
def wake (p : Pid) (q : Queues) : Queues := (q.unblock p).makeReady p

variable {q : Queues} {p c : Pid} {rest : List Pid}

/-- A pcb that has left the queue of its semaphore is in no place. -/
theorem WF.unplaced_unblock (hq : q.WF) (hp : p ∈ FifoMap.values q.asl) :
    p ∉ (q.unblock p).placed := by
  have hnodup := (placed_unblock hq hp).nodup_iff.mp hq.nodup
  exact (List.nodup_cons.mp hnodup).1

theorem placed_wake (hq : q.WF) (hp : p ∈ FifoMap.values q.asl) :
    (q.wake p).placed.Perm q.placed :=
  placed_makeReady.trans (placed_unblock hq hp).symm

theorem waiting_wake (hq : q.WF) (b : Word) :
    (q.wake p).waiting b = (q.waiting b).filter (· ≠ p) :=
  FifoMap.queue_restrict hq.asl

/-- Only the queue that `p` leaves changes. -/
theorem waiting_wake_of_ne {a b : Word} (hq : q.WF) (hp : p ∈ q.waiting a) (hb : b ≠ a) :
    (q.wake p).waiting b = q.waiting b := by
  rw [waiting_wake hq, List.filter_eq_self]
  rintro x hx
  have hne : x ≠ p := by
    rintro rfl
    exact hb (FifoMap.eq_of_mem_queue hq.asl hq.values_nodup hx hp)
  simpa using hne

theorem waiting_wake_head {a : Word} (hq : q.WF) (hwait : q.waiting a = p :: rest) :
    (q.wake p).waiting a = rest := by
  have hnodup := hq.waiting_nodup a
  rw [hwait, List.nodup_cons] at hnodup
  rw [waiting_wake hq, hwait, List.filter_cons_of_neg (by simp), List.filter_eq_self]
  intro x hx
  have hne : x ≠ p := fun heq => hnodup.1 (heq ▸ hx)
  simpa using hne

theorem WF.wake (hq : q.WF) (hp : p ∈ FifoMap.values q.asl) : (q.wake p).WF :=
  hq.unblock.makeReady (hq.unplaced_unblock hp)

theorem WF.unplaced_alloc (hq : q.WF) (hfree : q.free = c :: rest) : c ∉ (q.alloc c).placed := by
  have hnodup := hq.nodup
  rw [placed_alloc hfree] at hnodup
  exact (List.nodup_cons.mp hnodup).1

/-- The new pcb `c` of a live process `p` has no children and no parent. -/
theorem WF.fresh (hq : q.WF) (hfree : q.free = c :: rest) (hp : p ∉ q.free) :
    p ∉ (q.alloc c).free ∧ c ∉ (q.alloc c).free ∧ (q.alloc c).children c = [] ∧
      (∀ r, (q.alloc c).parent c ≠ .to r) ∧ c ≠ p := by
  obtain ⟨hchildren, hparent⟩ := hq.unborn c (by simp [hfree])
  have hnodup := hq.free_nodup
  rw [hfree, List.nodup_cons] at hnodup
  refine ⟨?_, ?_, hchildren, hparent, ?_⟩
  · intro hp'
    exact hp (List.mem_of_mem_tail hp')
  · simpa [Queues.alloc, hfree] using hnodup.1
  · rintro rfl
    simp [hfree] at hp

theorem WF.create (hq : q.WF) (hfree : q.free = c :: rest) (hp : p ∉ q.free) :
    (q.create p c).WF := by
  obtain ⟨hp', hc', hchildren, hparent, hne⟩ := hq.fresh hfree hp
  exact ((hq.alloc hfree).adopt hp' hc' hchildren hparent hne).makeReady
    (hq.unplaced_alloc hfree)

end Queues

/-- The row of the trap table that a word selects. -/
def TrapType.ofWord (w : Word) : Option TrapType :=
  if w = 0 then some .TLBTRAP
  else if w = 1 then some .PROGTRAP
  else if w = 2 then some .SYSTRAP
  else none

/-- The address of the semaphore SYS8 waits for. -/
def ioSemaphore (M : Machine) (d : Data) : Word :=
  M.semAdd ((d.arg s_a1 - 3 + d.arg s_a3) * 8 + d.arg s_a2)

/-- The address of the clock semaphore. -/
def clockSemaphore (M : Machine) : Word := M.semAdd 48

/-- The line that the interrupt handler serves. -/
def pendingLine (cause : Word) : Option Nat :=
  if cause &&& LINEZERO = LINEZERO then some 0
  else if cause &&& LINEONE = LINEONE then some 1
  else if cause &&& LINETWO = LINETWO then some 2
  else deviceLine cause

/-- The register index of the device that the handler takes to be pending. -/
def deviceIndex (d : Data) (line : Nat) : Nat :=
  DEVPERINT * (line - DEVNOSEM) +
    findDevice (d.interrupt_dev (line - DEVNOSEM)) DEVICEZERO DEVPERINT 0

/-- What is added to a register index to find the semaphore. -/
def ackOffset (d : Data) (line i : Nat) : Nat :=
  if line = TERMINT ∧ (d.devreg i).t_transm_status &&& 0xF = READY then DEVPERINT else 0

/-- The status word that is read before a device is acknowledged. -/
def ackStatus (d : Data) (line i : Nat) : Word :=
  if line = TERMINT ∧ (d.devreg i).t_transm_status &&& 0xF ≠ READY then (d.devreg i).t_transm_status
  else (d.devreg i).d_status

/-- A device register after it has been acknowledged. -/
def Device.acked (line : Nat) (r : Device) : Device :=
  if line = TERMINT ∧ r.t_transm_status &&& 0xF ≠ READY then { r with d_data1 := ACK }
  else { r with d_command := ACK }

def Data.acked (line i : Nat) (d : Data) : Data :=
  { d with devreg := Function.update d.devreg i ((d.devreg i).acked line) }

/-- The address of the semaphore that a device interrupt does its V on. -/
def deviceSemaphore (M : Machine) (d : Data) (line : Nat) : Word :=
  M.semAdd (BitVec.ofNat 32 (deviceIndex d line + ackOffset d line (deviceIndex d line)))

namespace Nucleus

/-- The V of a device interrupt. -/
def signal (a : Word) (n : Nucleus) : Nucleus :=
  let v := n.data.mem a + 1
  match n.queues.waiting a with
  | [] => ⟨n.queues, n.data.setMem a v⟩
  | x :: _ =>
    if v.toInt ≤ 0 then ⟨n.queues.wake x, (n.data.setMem a v).addSoftBlock (-1)⟩
    else ⟨n.queues, n.data.setMem a v⟩

/-- The clock interrupt wakes everybody who waits on `a`. -/
def wakeAll (a : Word) (n : Nucleus) : Nucleus :=
  (n.queues.waiting a).foldl (fun n x => ⟨n.queues.wake x, n.data.wake x⟩) n

/-- The interrupted process, if there is one, goes back to the ready queue. -/
def preempt (n : Nucleus) : Nucleus :=
  match n.data.currentProcess with
  | .to p => ⟨n.queues.makeReady p, n.data.preempt p⟩
  | _ => n

end Nucleus

section

variable (M : Machine) (q : Queues) (d : Data)

/-- What the nucleus services do, by the number of the call, once the program
counter has been advanced. Without a current process the nucleus runs into its
`NULL`. -/
inductive Service : Int → Nucleus → Next → Prop where
  | create {p c : Pid} {rest : List Pid} : d.currentProcess = .to p → q.free = c :: rest →
      M.readableState (d.arg s_a1) = true →
      Service 1 ⟨q.create p c,
        ((d.addProcess 1).give c (stateAt d.mem (d.arg s_a1))).setV0 SUCCESS⟩
        (.stop (resumeCaller
          (((d.addProcess 1).give c (stateAt d.mem (d.arg s_a1))).setV0 SUCCESS)))
  | createFault {p c : Pid} {rest : List Pid} {st : State} : d.currentProcess = .to p →
      q.free = c :: rest → M.readableState (d.arg s_a1) = false →
      Service 1 ⟨q.create p c, (d.addProcess 1).give c st⟩ (.stop .trap)
  | createFull : q.free = [] →
      Service 1 ⟨q, d.setV0 FAILURE⟩ (.stop (resumeCaller (d.setV0 FAILURE)))
  | terminate {p : Pid} {l : List Pid} : d.currentProcess = .to p → q.children.Postorder p l →
      Service 2 ⟨q.erase l, d.killed M q l⟩ (.sched resumeCaller)
  | signalFault : M.writable (d.arg s_a1) = false → Service 3 ⟨q, d⟩ (.stop .trap)
  | signal {v : Word} : M.writable (d.arg s_a1) = true → v = d.mem (d.arg s_a1) + 1 →
      (0 < v.toInt ∨ q.waiting (d.arg s_a1) = []) →
      Service 3 ⟨q, d.setMem (d.arg s_a1) v⟩ (.stop (resumeCaller d))
  | signalWake {x : Pid} {rest : List Pid} {v : Word} : M.writable (d.arg s_a1) = true →
      v = d.mem (d.arg s_a1) + 1 → v.toInt ≤ 0 → q.waiting (d.arg s_a1) = x :: rest →
      Service 3 ⟨q.wake x, d.setMem (d.arg s_a1) v⟩ (.stop (resumeCaller d))
  | waitFault : M.writable (d.arg s_a1) = false → Service 4 ⟨q, d⟩ (.stop .trap)
  | wait {v : Word} : M.writable (d.arg s_a1) = true → v = d.mem (d.arg s_a1) - 1 →
      0 ≤ v.toInt → Service 4 ⟨q, d.setMem (d.arg s_a1) v⟩ (.stop (resumeCaller d))
  | waitBlock {p : Pid} {v : Word} : M.writable (d.arg s_a1) = true →
      v = d.mem (d.arg s_a1) - 1 → v.toInt < 0 → d.currentProcess = .to p →
      Service 4 ⟨q.block (d.arg s_a1) p, (d.setMem (d.arg s_a1) v).save p .SYSCALLOLDAREA⟩
        (.sched resumeCaller)
  | waitNobody {v : Word} : M.writable (d.arg s_a1) = true →
      v = d.mem (d.arg s_a1) - 1 → v.toInt < 0 → d.currentProcess = .null →
      Service 4 ⟨q, d.setMem (d.arg s_a1) v⟩ (.stop .trap)
  | sesvKill {p : Pid} {l : List Pid} {type : TrapType} : d.currentProcess = .to p →
      TrapType.ofWord (d.arg s_a1) = some type → q.states p type .NEW ≠ NULL → q.children.Postorder p l →
      Service 5 ⟨q.erase l, d.killed M q l⟩ (.sched fun _ => .trap)
  | sesv {p : Pid} {type : TrapType} : d.currentProcess = .to p →
      TrapType.ofWord (d.arg s_a1) = some type → q.states p type .NEW = NULL →
      Service 5 ⟨q.setStates p fun t s =>
          if t = type then (match s with | .NEW => d.arg s_a3 | .OLD => d.arg s_a2)
          else q.states p t s, d⟩ (.stop (resumeCaller d))
  | getTime {p : Pid} : d.currentProcess = .to p →
      Service 6 ⟨q, d.accounted p⟩
        (.stop (.LDST (.pcb_state (.to p)) ((d.accounted p).pcb_state p)))
  | clock {v : Word} : v = d.mem (clockSemaphore M) - 1 → 0 ≤ v.toInt →
      Service 7 ⟨q, d.setMem (clockSemaphore M) v⟩ (.sched resumeCaller)
  | clockBlock {p : Pid} {v : Word} : v = d.mem (clockSemaphore M) - 1 → v.toInt < 0 →
      d.currentProcess = .to p →
      Service 7 ⟨q.block (clockSemaphore M) p,
        ((d.setMem (clockSemaphore M) v).save p .SYSCALLOLDAREA).addSoftBlock 1⟩
        (.sched resumeCaller)
  | ioFault : M.writable (ioSemaphore M d) = false → Service 8 ⟨q, d⟩ (.stop .trap)
  | io {v : Word} : M.writable (ioSemaphore M d) = true → v = d.mem (ioSemaphore M d) - 1 →
      0 ≤ v.toInt → Service 8 ⟨q, d.setMem (ioSemaphore M d) v⟩ (.stop (resumeCaller d))
  | ioBlock {p : Pid} {v : Word} : M.writable (ioSemaphore M d) = true →
      v = d.mem (ioSemaphore M d) - 1 → v.toInt < 0 → d.currentProcess = .to p →
      Service 8 ⟨q.block (ioSemaphore M d) p,
        ((d.setMem (ioSemaphore M d) v).save p .SYSCALLOLDAREA).addSoftBlock 1⟩
        (.sched resumeCaller)
  | ioNobody {v : Word} : M.writable (ioSemaphore M d) = true →
      v = d.mem (ioSemaphore M d) - 1 → v.toInt < 0 → d.currentProcess = .null →
      Service 8 ⟨q, d.setMem (ioSemaphore M d) v⟩ (.stop .trap)
  | nobody {call : Int} : call ∈ [2, 5, 6] → d.currentProcess = .null →
      Service call ⟨q, d⟩ (.stop .trap)

/-- What `pullUpAndDie` does. -/
inductive PullUp : TrapType → Nucleus → Next → Prop where
  | nobody {type : TrapType} : d.currentProcess = .null → PullUp type ⟨q, d⟩ (.stop .trap)
  | oldFault {p : Pid} {type : TrapType} : d.currentProcess = .to p →
      M.readable (Field.s_cause.addr (q.states p type .OLD)) = false →
      PullUp type ⟨q, d⟩ (.stop .trap)
  | die {p : Pid} {l : List Pid} {type : TrapType} : d.currentProcess = .to p →
      M.readable (Field.s_cause.addr (q.states p type .OLD)) = true →
      q.states p type .NEW = NULL → q.children.Postorder p l →
      PullUp type ⟨q.erase l, d.killed M q l⟩ (.sched fun _ => .trap)
  | copyFault {p : Pid} {type : TrapType} {mem : Word → Word} : d.currentProcess = .to p →
      M.readable (Field.s_cause.addr (q.states p type .OLD)) = true →
      q.states p type .NEW ≠ NULL → M.writableState (q.states p type .OLD) = false →
      (∀ w, (∀ f : Field, f.addr (q.states p type .OLD) ≠ w) → mem w = d.mem w) →
      PullUp type ⟨q, { d with mem := mem }⟩ (.stop .trap)
  | loadFault {p : Pid} {type : TrapType} : d.currentProcess = .to p →
      q.states p type .NEW ≠ NULL → M.writableState (q.states p type .OLD) = true →
      M.readableState (q.states p type .NEW) = false →
      PullUp type ⟨q, { d with
        mem := storeState d.mem (q.states p type .OLD) (d.old type.location) }⟩ (.stop .trap)
  | passUp {p : Pid} {type : TrapType} : d.currentProcess = .to p →
      q.states p type .NEW ≠ NULL → M.writableState (q.states p type .OLD) = true →
      M.readableState (q.states p type .NEW) = true →
      PullUp type ⟨q, { d with
        mem := storeState d.mem (q.states p type .OLD) (d.old type.location) }⟩
        (.stop (.LDST (.mem (q.states p type .NEW)) (stateAt
          (storeState d.mem (q.states p type .OLD) (d.old type.location))
          (q.states p type .NEW))))

/-- What the interrupt handler does, once it has read the clock. -/
inductive Interrupt (cause : Word) : Nucleus → Next → Prop where
  | panic : pendingLine cause = some 0 ∨ pendingLine cause = none →
      Interrupt cause ⟨q, d⟩ (.stop .PANIC)
  | quantum : pendingLine cause = some 1 →
      Interrupt cause (Nucleus.preempt ⟨q, d⟩) (.sched fun _ => .undefined)
  | clock : pendingLine cause = some 2 →
      (∀ b, clockSemaphore M < b → q.waiting b = []) →
      Interrupt cause (Nucleus.preempt
        ⟨(Nucleus.wakeAll (clockSemaphore M) ⟨q, { d with intervalTimer := INTTIME }⟩).queues,
          (Nucleus.wakeAll (clockSemaphore M) ⟨q, { d with intervalTimer := INTTIME }⟩).data.setMem
            (clockSemaphore M) 0⟩) (.sched fun _ => .undefined)
  | device {line : Nat} : pendingLine cause = some line → DISKINT ≤ line → line ≤ TERMINT →
      Interrupt cause (Nucleus.preempt (Nucleus.signal (deviceSemaphore M d line)
        ⟨q, d.acked line (deviceIndex d line)⟩)) (.sched fun _ => .undefined)

/-- The exceptions the nucleus has handlers for. -/
inductive Exception where
  | SYSCALL
  | PGMTRAP
  | TLBTRAP
  | INTERRUPT
  deriving DecidableEq, Repr

/-- The number of the system call. -/
def callNumber : Int := (d.arg s_a0).toInt

def validCall : Prop := callNumber d ≥ CREATE_PROCESS ∧ callNumber d ≤ WAITIO

instance : Decidable (validCall d) := inferInstanceAs (Decidable (_ ∧ _))

def userMode : Prop := (d.old .SYSCALLOLDAREA).s_status &&& KUON ≠ ALLOFF

instance : Decidable (userMode d) := inferInstanceAs (Decidable (_ ≠ _))

/-- A system call is turned into a program trap. -/
def Data.reserved (d : Data) : Data :=
  { d with
    old := Function.update d.old .PGMTRAPOLDAREA
      ((d.old .SYSCALLOLDAREA).set .s_cause (RI <<< 2)) }

/-- What the four handlers do. -/
inductive Handles : Exception → Nucleus → Next → Prop where
  | service {n : Nucleus} {next : Next} : validCall d → ¬ userMode d →
      Service M q d.advance (callNumber d) n next → Handles .SYSCALL n next
  | privileged {n : Nucleus} {next : Next} : validCall d → userMode d →
      PullUp M q d.reserved .PROGTRAP n next → Handles .SYSCALL n next
  | unknown {n : Nucleus} {next : Next} : ¬ validCall d →
      PullUp M q d .SYSTRAP n next → Handles .SYSCALL n next
  | pgmTrap {n : Nucleus} {next : Next} :
      PullUp M q d .PROGTRAP n next → Handles .PGMTRAP n next
  | tlbTrap {n : Nucleus} {next : Next} :
      PullUp M q d .TLBTRAP n next → Handles .TLBTRAP n next
  | interrupt {n : Nucleus} {next : Next} :
      Interrupt M q d.stopClock (d.old .INTPOLDAREA).s_cause n next → Handles .INTERRUPT n next

end

end Kaya
