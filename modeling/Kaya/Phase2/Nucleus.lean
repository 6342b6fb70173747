import Kaya.Phase2.CopyState

open Links

namespace Kaya

/-- The nucleus with its tables read as lists, queues and trees. -/
structure Nucleus where
  queues : Queues
  data : Data

namespace Nucleus

/-- The tables are well formed and agree with the counter of processes; every
semaphore somebody waits on is an `int` in memory. -/
structure Valid (M : Machine) (n : Nucleus) : Prop where
  wf : n.queues.WF
  current : n.data.currentProcess ≠ .zero
  count : n.data.processCount + n.queues.free.length = MAXPROC
  keys : ∀ e ∈ n.queues.asl, M.writable e.1

/-- Between two steps the current process is in no queue. -/
structure Settled (M : Machine) (n : Nucleus) : Prop extends n.Valid M where
  unplaced : ∀ p, n.data.currentProcess = .to p → p ∉ n.queues.placed

variable {M : Machine} {q : Queues} {d d' : Data}

theorem Valid.congr (hn : Nucleus.Valid M ⟨q, d⟩) (hcur : d'.currentProcess = d.currentProcess)
    (hcount : d'.processCount = d.processCount) : Nucleus.Valid M ⟨q, d'⟩ :=
  ⟨hn.wf, by simpa [hcur] using hn.current, by simpa [hcount] using hn.count, hn.keys⟩

theorem Settled.congr (hn : Nucleus.Settled M ⟨q, d⟩)
    (hcur : d'.currentProcess = d.currentProcess) (hcount : d'.processCount = d.processCount) :
    Nucleus.Settled M ⟨q, d'⟩ :=
  ⟨hn.toValid.congr hcur hcount, by simpa [hcur] using hn.unplaced⟩

end Nucleus

/-- How a piece of nucleus code ends: it stops for a reason, or returns. -/
def outcome (o : Option Stop) (k : Kernel) : EStateM.Result Stop Kernel Unit :=
  match o with
  | some x => .error x k
  | none => .ok () k

namespace Data

/-- The current process is billed for the time since it was started. -/
def charge (d : Data) : Data :=
  match d.currentProcess with
  | .to p =>
    let tod := d.clock d.readings
    { d with
      readings := d.readings + 1
      currentTOD := tod
      pcb_time := Function.update d.pcb_time p (d.pcb_time p + (tod - d.TODStarted)) }
  | _ => d

/-- `p` becomes the current process. -/
def dispatch (p : Pid) (d : Data) : Data :=
  { d with
    currentProcess := .to p
    TODStarted := d.clock d.readings
    readings := d.readings + 1
    timer := QUANTUM }

def idle (d : Data) : Data := { d with currentProcess := .null }

/-- What the scheduler does when no process is ready; nothing, when it returns. -/
def verdict (d : Data) : Option Stop :=
  if d.processCount = 0 then some .HALT
  else if d.processCount > 0 then
    if d.softBlockCount = 0 then some .PANIC
    else if d.softBlockCount > 0 then some .WAIT
    else none
  else none

/-- The state in an old area is saved as that of a process. -/
def save (p : Pid) (area : OldArea) (d : Data) : Data :=
  { d with pcb_state := Function.update d.pcb_state p (d.old area) }

def setMem (a v : Word) (d : Data) : Data := { d with mem := Function.update d.mem a v }

/-- The program counter in the SYSCALL old area moves behind the instruction. -/
def advance (d : Data) : Data :=
  { d with
    old := Function.update d.old .SYSCALLOLDAREA
      ((d.old .SYSCALLOLDAREA).set .s_pc ((d.old .SYSCALLOLDAREA).s_pc + 4)) }

/-- The result register of the SYSCALL old area is set. -/
def setV0 (w : Word) (d : Data) : Data :=
  { d with
    old := Function.update d.old .SYSCALLOLDAREA
      ((d.old .SYSCALLOLDAREA).set (.s_reg s_v0) w) }

def addProcess (i : Int) (d : Data) : Data := { d with processCount := d.processCount + i }

def addSoftBlock (i : Int) (d : Data) : Data := { d with softBlockCount := d.softBlockCount + i }

@[simp] theorem charge_pcb_state (d : Data) : d.charge.pcb_state = d.pcb_state := by
  unfold charge; split <;> rfl

@[simp] theorem charge_currentProcess (d : Data) :
    d.charge.currentProcess = d.currentProcess := by
  unfold charge; split <;> simp_all

@[simp] theorem charge_devreg (d : Data) : d.charge.devreg = d.devreg := by
  unfold charge; split <;> rfl

@[simp] theorem charge_processCount (d : Data) : d.charge.processCount = d.processCount := by
  unfold charge; split <;> rfl

@[simp] theorem charge_softBlockCount (d : Data) :
    d.charge.softBlockCount = d.softBlockCount := by
  unfold charge; split <;> rfl

@[simp] theorem charge_mem (d : Data) : d.charge.mem = d.mem := by
  unfold charge; split <;> rfl

@[simp] theorem charge_old (d : Data) : d.charge.old = d.old := by
  unfold charge; split <;> rfl

theorem verdict_charge (d : Data) : d.charge.verdict = d.verdict := by
  simp [verdict]

end Data

/-- The scheduler: the first ready process is started, or the verdict on an
empty ready queue is carried out. -/
def Nucleus.schedule (n : Nucleus) : Option Stop × Nucleus :=
  match n.queues.ready with
  | p :: _ => (some (.LDST (.pcb_state (.to p)) (n.data.pcb_state p)),
      ⟨n.queues.unready p, n.data.charge.dispatch p⟩)
  | [] => (n.data.verdict, ⟨n.queues, n.data.charge.idle⟩)

end Kaya
