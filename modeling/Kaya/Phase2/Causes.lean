import Kaya.Phase1.View
import Kaya.Phase2.Invariant

open Links

namespace Kaya

/-- A number that a service belongs to, in user mode. -/
def Entry.privileged (e : Entry) : Prop :=
  CREATE_PROCESS ≤ (e.state.s_reg s_a0).toInt ∧ (e.state.s_reg s_a0).toInt ≤ WAITIO ∧
    e.state.s_status &&& KUON ≠ ALLOFF

instance (e : Entry) : Decidable e.privileged := inferInstanceAs (Decidable (_ ∧ _ ∧ _))

/-- The trap type an exception is passed up as; no type for the services of the
nucleus and for interrupts. -/
def Entry.raises (e : Entry) : Option TrapType :=
  match e.exception with
  | .PGMTRAP => some .PROGTRAP
  | .TLBTRAP => some .TLBTRAP
  | .SYSCALL =>
    if CREATE_PROCESS ≤ (e.state.s_reg s_a0).toInt ∧ (e.state.s_reg s_a0).toInt ≤ WAITIO then
      if e.state.s_status &&& KUON = ALLOFF then none else some .PROGTRAP
    else some .SYSTRAP
  | .INTERRUPT => none

/-- The data when a trap is passed up. -/
def Entry.pass (e : Entry) (d : Data) : Data :=
  if e.exception = .SYSCALL ∧ e.privileged then (e.enter d).reserved else e.enter d

/-- A line that the interrupt handler has a branch for. -/
def Entry.serviced (e : Entry) : Prop :=
  e.exception = .INTERRUPT → pendingLine e.state.s_cause ≠ some 0 ∧
    pendingLine e.state.s_cause ≠ none

instance (e : Entry) : Decidable e.serviced := inferInstanceAs (Decidable (_ → _))

/-- The current process `p` is killed. -/
def Entry.terminates (M : Machine) (h : Heap) (p : Pid) (e : Entry) : Prop :=
  e.calls TERMINATE_PROCESS ∨
  (e.calls SESV ∧ ∃ type, TrapType.ofWord (e.state.s_reg s_a1) = some type ∧
    h.pcb_states p type .NEW ≠ NULL) ∨
  ∃ type, e.raises = some type ∧ h.pcb_states p type .NEW = NULL ∧
    M.readable (Field.s_cause.addr (h.pcb_states p type .OLD)) = true

variable {M : Machine} {h : Heap} {q : Queues} {d : Data} {e : Entry} {n : Nucleus} {next : Next}

/-- Only a service is called with a number of the nucleus. -/
theorem Entry.calls_of_raises {type : TrapType} (hraises : e.raises = some type) (number : Int)
    (hcalls : e.calls number) : number < CREATE_PROCESS ∨ WAITIO < number := by
  obtain ⟨hex, hmode, rfl⟩ := hcalls
  simp only [Entry.raises, hex, hmode, if_true] at hraises
  by_contra hserved
  rw [not_or, not_lt, not_lt] at hserved
  rw [if_pos hserved] at hraises
  exact absurd hraises nofun

/-- What a handler does, by what the exception asks for. -/
theorem Handles.cases_enter (hact : Handles M q (e.enter d) e.exception n next) :
    (∃ number, e.calls number ∧ CREATE_PROCESS ≤ number ∧ number ≤ WAITIO ∧
      Service M q (e.enter d).advance number n next) ∨
    (∃ type, e.raises = some type ∧ PullUp M q (e.pass d) type n next) ∨
    (e.exception = .INTERRUPT ∧
      Interrupt M q (e.enter d).stopClock e.state.s_cause n next) := by
  generalize hex : e.exception = ex at hact
  cases hact with
  | service hvalid huser hact =>
    exact Or.inl ⟨_, (Entry.calls_iff hex).mpr ⟨huser, rfl⟩, hvalid.1, hvalid.2, hact⟩
  | privileged hvalid huser hact =>
    refine Or.inr (Or.inl ⟨.PROGTRAP, ?_, ?_⟩)
    · unfold validCall callNumber Data.arg at hvalid
      unfold userMode at huser
      rw [Entry.enter_syscall hex] at hvalid huser
      simp only [Entry.raises, hex]
      rw [if_pos ⟨hvalid.1, hvalid.2⟩, if_neg huser]
    · unfold validCall callNumber Data.arg at hvalid
      unfold userMode at huser
      rw [Entry.enter_syscall hex] at hvalid huser
      rwa [Entry.pass, if_pos ⟨hex, hvalid.1, hvalid.2, huser⟩]
  | unknown hvalid hact =>
    unfold validCall callNumber Data.arg at hvalid
    rw [Entry.enter_syscall hex] at hvalid
    refine Or.inr (Or.inl ⟨.SYSTRAP, ?_, ?_⟩)
    · simp only [Entry.raises, hex]
      rw [if_neg fun hle => hvalid ⟨hle.1, hle.2⟩]
    · rwa [Entry.pass, if_neg fun hle => hvalid ⟨hle.2.1, hle.2.2.1⟩]
  | pgmTrap hact =>
    refine Or.inr (Or.inl ⟨.PROGTRAP, by simp [Entry.raises, hex], ?_⟩)
    rwa [Entry.pass, if_neg (by simp [hex])]
  | tlbTrap hact =>
    refine Or.inr (Or.inl ⟨.TLBTRAP, by simp [Entry.raises, hex], ?_⟩)
    rwa [Entry.pass, if_neg (by simp [hex])]
  | interrupt hact =>
    refine Or.inr (Or.inr ⟨rfl, ?_⟩)
    have harea : (e.enter d).old .INTPOLDAREA = e.state := by
      simp [Entry.enter, hex, Exception.area]
    rwa [harea] at hact

/-- A call is served. -/
theorem Handles.serves {number : Int} (hact : Handles M q (e.enter d) e.exception n next)
    (hcalls : e.calls number) (hlo : CREATE_PROCESS ≤ number) (hhi : number ≤ WAITIO) :
    Service M q (e.enter d).advance number n next := by
  rcases hact.cases_enter with ⟨number', hcalls', -, -, hact⟩ | ⟨type, hraises, -⟩ | ⟨hex, -⟩
  · rwa [← hcalls.2.2, hcalls'.2.2]
  · have hother := Entry.calls_of_raises hraises number hcalls
    omega
  · exact absurd (hex.symm.trans hcalls.1) nofun

theorem Entry.advance_arg {r : Fin STATEREGNUM} (hex : e.exception = .SYSCALL) :
    (e.enter d).advance.arg r = e.state.s_reg r := by
  simp [Data.arg, Data.advance, State.set, Entry.enter_syscall hex]

/-- The semaphore that SYS8 waits for, by line, device and direction. -/
theorem Entry.Arguments.ioSemaphore_eq (hargs : e.Arguments M) (hcall : e.calls WAITIO) :
    ioSemaphore M (e.enter d).advance = M.semAdd (BitVec.ofNat 32
      (DEVPERINT * ((e.state.s_reg s_a1).toNat - DEVNOSEM + (e.state.s_reg s_a3).toNat) +
        (e.state.s_reg s_a2).toNat)) := by
  obtain ⟨hlo, hhi, hdev, hdir⟩ := hargs.device hcall.2.2
  unfold ioSemaphore
  simp only [Entry.advance_arg hcall.1]
  generalize e.state.s_reg s_a1 = line at *
  generalize e.state.s_reg s_a2 = device at *
  generalize e.state.s_reg s_a3 = direction at *
  have hdir' : direction.toNat ≤ 1 := by
    rcases hdir with rfl | ⟨rfl, -⟩ <;> decide
  congr 1
  apply BitVec.eq_of_toNat_eq
  simp only [DISKINT, TERMINT, DEVPERINT, DEVNOSEM] at *
  bv_omega

/-- What a handler can do to the process tree: nothing, add a child of the current
process, or cut off the tree below it. -/
inductive Lineage (q : Queues) (cur : PcbPtr) : Queues → Prop where
  | same {q' : Queues} : q'.free = q.free → q'.children = q.children → q'.parent = q.parent →
      Lineage q cur q'
  | create {p c : Pid} {rest : List Pid} : cur = .to p → q.free = c :: rest →
      Lineage q cur (q.create p c)
  | erase {p : Pid} {l : List Pid} : cur = .to p → q.children.Postorder p l →
      Lineage q cur (q.erase l)

theorem Lineage.refl {cur : PcbPtr} : Lineage q cur q := .same rfl rfl rfl

/-- Waking processes leaves the process tree as it is. -/
theorem Nucleus.family_wakeAll {a : Word} :
    (Nucleus.wakeAll a n).queues.free = n.queues.free ∧
      (Nucleus.wakeAll a n).queues.children = n.queues.children ∧
      (Nucleus.wakeAll a n).queues.parent = n.queues.parent := by
  unfold Nucleus.wakeAll
  generalize n.queues.waiting a = l
  induction l generalizing n with
  | nil => exact ⟨rfl, rfl, rfl⟩
  | cons x l ih =>
    obtain ⟨hfree, hchildren, hparent⟩ := ih (n := ⟨n.queues.wake x, n.data.wake x⟩)
    exact ⟨hfree, hchildren, hparent⟩

theorem Nucleus.family_signal {a : Word} :
    (Nucleus.signal a n).queues.free = n.queues.free ∧
      (Nucleus.signal a n).queues.children = n.queues.children ∧
      (Nucleus.signal a n).queues.parent = n.queues.parent := by
  unfold Nucleus.signal
  split
  · exact ⟨rfl, rfl, rfl⟩
  · dsimp only
    split <;> exact ⟨rfl, rfl, rfl⟩

theorem Nucleus.family_preempt : n.preempt.queues.free = n.queues.free ∧
    n.preempt.queues.children = n.queues.children ∧
    n.preempt.queues.parent = n.queues.parent := by
  unfold Nucleus.preempt
  split <;> exact ⟨rfl, rfl, rfl⟩

theorem Service.lineage {call : Int} (hact : Service M q d call n next) :
    Lineage q d.currentProcess n.queues := by
  cases hact with
  | create hcur hfree _ => exact .create hcur hfree
  | createFault hcur hfree _ => exact .create hcur hfree
  | terminate hcur hl => exact .erase hcur hl
  | sesvKill hcur _ _ hl => exact .erase hcur hl
  | _ => exact .same rfl rfl rfl

theorem PullUp.lineage {type : TrapType} (hact : PullUp M q d type n next) :
    Lineage q d.currentProcess n.queues := by
  cases hact with
  | die hcur _ _ hl => exact .erase hcur hl
  | _ => exact .refl

theorem Interrupt.lineage {cause : Word} (hact : Interrupt M q d cause n next) :
    Lineage q d.currentProcess n.queues := by
  cases hact with
  | panic _ => exact .refl
  | quantum _ =>
    obtain ⟨hfree, hchildren, hparent⟩ := Nucleus.family_preempt (n := ⟨q, d⟩)
    exact .same hfree hchildren hparent
  | clock _ _ =>
    obtain ⟨hfree, hchildren, hparent⟩ := Nucleus.family_preempt (n := ⟨_, _⟩)
    obtain ⟨hfree', hchildren', hparent'⟩ := Nucleus.family_wakeAll
      (n := ⟨q, { d with intervalTimer := INTTIME }⟩) (a := clockSemaphore M)
    exact .same (hfree.trans hfree') (hchildren.trans hchildren') (hparent.trans hparent')
  | @device line _ _ _ =>
    obtain ⟨hfree, hchildren, hparent⟩ := Nucleus.family_preempt (n := Nucleus.signal _ _)
    obtain ⟨hfree', hchildren', hparent'⟩ := Nucleus.family_signal
      (n := ⟨q, d.acked line (deviceIndex d line)⟩) (a := deviceSemaphore M d line)
    exact .same (hfree.trans hfree') (hchildren.trans hchildren') (hparent.trans hparent')

theorem Handles.lineage {ex : Exception} (hact : Handles M q d ex n next) :
    Lineage q d.currentProcess n.queues := by
  cases hact with
  | service _ _ hact => exact hact.lineage
  | privileged _ _ hact => exact hact.lineage
  | unknown _ hact => exact hact.lineage
  | pgmTrap hact => exact hact.lineage
  | tlbTrap hact => exact hact.lineage
  | interrupt hact => exact hact.lineage

theorem Nucleus.family_finish : (next.finish n).2.queues.free = n.queues.free ∧
    (next.finish n).2.queues.children = n.queues.children ∧
    (next.finish n).2.queues.parent = n.queues.parent := by
  cases next with
  | stop x => exact ⟨rfl, rfl, rfl⟩
  | sched resume =>
    simp only [Next.finish, Nucleus.schedule]
    split <;> exact ⟨rfl, rfl, rfl⟩

/-- Going down the child lists of the heap is going down the process tree. -/
theorem Represents.descends_iff (hrep : Represents h q) (hq : q.WF) {p x : Pid}
    (hp : p ∉ q.free) : Forest.Descends h.childList p x ↔ q.children.Descends p x := by
  have hlive : ∀ y, q.children.Descends p y → y ∉ q.free := by
    intro y hy
    induction hy with
    | refl => exact hp
    | tail _ hz _ => exact fun hfree => (hq.unborn _ hfree).2 _ ((hq.child _ _).mp hz)
  constructor
  · intro hx
    induction hx with
    | refl => exact .refl
    | tail _ hz ih =>
      refine Relation.ReflTransGen.tail ih ?_
      rwa [hrep.childList_eq (hlive _ ih)] at hz
  · intro hx
    induction hx with
    | refl => exact .refl
    | tail hy hz ih =>
      refine Relation.ReflTransGen.tail ih ?_
      rwa [hrep.childList_eq (hlive _ hy)]

end Kaya
