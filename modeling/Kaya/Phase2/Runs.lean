import Kaya.Exec.System
import Kaya.Phase2.Devices
import Kaya.Phase2.Initial
import Kaya.Phase2.PassUp

open Links Exec

namespace Kaya

/-- The old area the processor stores the state of an exception in. -/
def Exception.area : Exception → OldArea
  | .SYSCALL => .SYSCALLOLDAREA
  | .PGMTRAP => .PGMTRAPOLDAREA
  | .TLBTRAP => .TBLMGMTOLDAREA
  | .INTERRUPT => .INTPOLDAREA

/-- An exception as the nucleus finds it: the state of the processor, memory,
the pending devices of each line and the device registers. -/
structure Entry where
  exception : Exception
  state : State
  mem : Word → Word
  interrupt_dev : Nat → Word
  devreg : Nat → Device

def Entry.enter (e : Entry) (d : Data) : Data :=
  { d with
    old := Function.update d.old e.exception.area e.state
    mem := e.mem
    interrupt_dev := e.interrupt_dev
    devreg := e.devreg }

/-- A system call in kernel mode. -/
def Entry.calls (e : Entry) (number : Int) : Prop :=
  e.exception = .SYSCALL ∧ e.state.s_status &&& KUON = ALLOFF ∧ (e.state.s_reg s_a0).toInt = number

instance (e : Entry) (number : Int) : Decidable (e.calls number) :=
  inferInstanceAs (Decidable (_ ∧ _ ∧ _))

def handler (M : Machine) (n : Nat) : Exception → KernelM Unit
  | .SYSCALL => sysCallHandler M n
  | .PGMTRAP => pbgTrapHandler M n
  | .TLBTRAP => tlbTrapHandler M n
  | .INTERRUPT => ioTrapHandler M n

/-- An exception is taken. There is nothing to return to from a handler. -/
def kernelEntry (M : Machine) (n : Nat) (e : Entry) : KernelM Unit := do
  modifyData e.enter
  handler M n e.exception
  throw .undefined

/-- How the nucleus was left, and with what. -/
structure Config where
  stop : Stop
  kernel : Kernel

/-- What can come next: a process may raise any exception, the processor waits
for interrupts, and a program trap of the nucleus is handled like any other. -/
inductive Resumes : Stop → Exception → Prop where
  | LDST {ref : StateRef} {st : State} {ex : Exception} : Resumes (.LDST ref st) ex
  | WAIT : Resumes .WAIT .INTERRUPT
  | trap : Resumes .trap .PGMTRAP

def Stop.isLDST : Stop → Bool
  | .LDST _ _ => true
  | _ => false

/-- P and V are for semaphores that are not the nucleus's own, and SYS8 is for an existing
line, device and direction. -/
structure Entry.InPlace (M : Machine) (e : Entry) : Prop where
  semaphore : (e.state.s_reg s_a0).toInt = VERHOGEN ∨ (e.state.s_reg s_a0).toInt = PASSEREN →
    ∀ i < TOTALSEM, e.state.s_reg s_a1 ≠ M.semAdd (BitVec.ofNat 32 i)
  device : (e.state.s_reg s_a0).toInt = WAITIO →
    DISKINT ≤ (e.state.s_reg s_a1).toNat ∧ (e.state.s_reg s_a1).toNat ≤ TERMINT ∧
      (e.state.s_reg s_a2).toNat < DEVPERINT ∧ (e.state.s_reg s_a3 = 0 ∨
        e.state.s_reg s_a3 = 1 ∧ (e.state.s_reg s_a1).toNat = TERMINT)

/-- Arguments that the services are meant for. SYS5 takes its trap type for an index without
a test, so the type has to be one of the three. -/
structure Entry.Arguments (M : Machine) (e : Entry) : Prop extends e.InPlace M where
  type : (e.state.s_reg s_a0).toInt = SESV → (TrapType.ofWord (e.state.s_reg s_a1)).isSome

/-- The exceptions that can occur in a configuration. Only processes change
memory between two exceptions, and they leave the semaphores of the nucleus
alone. -/
structure Legal (M : Machine) (c : Config) (e : Entry) : Prop where
  resumes : Resumes c.stop e.exception
  quiet : c.stop.isLDST = false → e.mem = c.kernel.data.mem
  semaphores : ∀ i < TOTALSEM, e.mem (M.semAdd (BitVec.ofNat 32 i)) =
    c.kernel.data.mem (M.semAdd (BitVec.ofNat 32 i))
  arguments : e.exception = .SYSCALL → e.state.s_status &&& KUON = ALLOFF → e.Arguments M

/-- The nucleus: `main`, and then one exception after the other, each handled
until the nucleus is left again. -/
def nucleus (M : Machine) : System Config Entry where
  init c := ∃ mem clock,
    (main M).run (Kernel.bss M mem clock) = .error c.stop c.kernel
  step c e c' := Legal M c e ∧
    ∃ n, (kernelEntry M n e).run c.kernel = .error c'.stop c'.kernel ∧ c'.stop ≠ .spin

/-- The exceptions that can occur when SYS5 is called with any type. -/
structure Occurs (M : Machine) (c : Config) (e : Entry) : Prop where
  resumes : Resumes c.stop e.exception
  quiet : c.stop.isLDST = false → e.mem = c.kernel.data.mem
  semaphores : ∀ i < TOTALSEM, e.mem (M.semAdd (BitVec.ofNat 32 i)) =
    c.kernel.data.mem (M.semAdd (BitVec.ofNat 32 i))
  arguments : e.exception = .SYSCALL → e.state.s_status &&& KUON = ALLOFF → e.InPlace M

/-- The nucleus without the restriction on the types of SYS5. -/
def unchecked (M : Machine) : System Config Entry where
  init := (nucleus M).init
  step c e c' := Occurs M c e ∧
    ∃ n, (kernelEntry M n e).run c.kernel = .error c'.stop c'.kernel ∧ c'.stop ≠ .spin

variable {M : Machine} {c c' : Config} {e : Entry} {q : Queues}

/-- The nucleus has lost its current process and runs into its `NULL` again and
again. -/
structure Config.Dead (c : Config) : Prop where
  stop : c.stop = .trap
  current : c.kernel.data.currentProcess = .null

/-- The nucleus after a step, in terms of what the handlers do. -/
structure Config.Follows (M : Machine) (q : Queues) (d : Data) (ex : Exception) (c' : Config)
    (n : Nucleus) (next : Next) : Prop where
  handles : Handles M q d ex n next
  stop : c'.stop = (next.finish n).1
  data : c'.kernel.data = (next.finish n).2.data
  represents : Represents c'.kernel.heap (next.finish n).2.queues

theorem Legal.occurs (hlegal : Legal M c e) : Occurs M c e where
  resumes := hlegal.resumes
  quiet := hlegal.quiet
  semaphores := hlegal.semaphores
  arguments hex hmode := (hlegal.arguments hex hmode).toInPlace

/-- What is reached with the three types is reached without the restriction. -/
theorem Reachable.unchecked (hc : (nucleus M).Reachable c) : (unchecked M).Reachable c :=
  hc.invariant (fun _ hinit => .init hinit)
    fun _ _ _ hreach hstep => hreach.step ⟨hstep.1.occurs, hstep.2⟩

/-- The arguments of a system call are those of the state it was made in. -/
theorem Entry.enter_syscall {d : Data} (hex : e.exception = .SYSCALL) :
    (e.enter d).old .SYSCALLOLDAREA = e.state := by
  simp [Entry.enter, hex, Exception.area]

theorem Entry.calls_iff {d : Data} {number : Int} (hex : e.exception = .SYSCALL) :
    e.calls number ↔ ¬ userMode (e.enter d) ∧ callNumber (e.enter d) = number := by
  unfold Entry.calls userMode callNumber Data.arg
  rw [Entry.enter_syscall hex]
  simp [hex]

/-- A legal SYS5 names a type. -/
theorem Legal.isSome_type {d : Data} (hlegal : Legal M c e) (hex : e.exception = .SYSCALL)
    (hmode : ¬ userMode (e.enter d)) (hcall : callNumber (e.enter d) = SESV) :
    (TrapType.ofWord ((e.enter d).arg s_a1)).isSome := by
  obtain ⟨-, hkernel, hnumber⟩ := (Entry.calls_iff hex).mpr ⟨hmode, hcall⟩
  unfold Data.arg
  rw [Entry.enter_syscall hex]
  exact (hlegal.arguments hex hkernel).type hnumber

theorem Entry.calls_ne {i j : Int} (hcalls : e.calls i) (hne : i ≠ j) : ¬ e.calls j :=
  fun hcalls' => hne (hcalls.2.2.symm.trans hcalls'.2.2)

/-- What the nucleus does with an exception, once it has entered the handler. -/
theorem run_kernelEntry {n : Nat} {k : Kernel} : (kernelEntry M n e).run k =
    (handler M n e.exception >>= fun _ => (throw .undefined : KernelM Unit)).run
      ⟨k.heap, e.enter k.data⟩ :=
  bind_modifyData

/-- Handling an exception ends as `Handles` says, unless a system call derails it or the
clock interrupt finds a semaphore with a larger address than its own in use. -/
theorem kernelEntry_spec (hrep : Represents c.kernel.heap q)
    (hn : Nucleus.Settled M ⟨q, c.kernel.data⟩) (hlegal : Legal M c e) :
    Terminates (fun n => (kernelEntry M n e).run c.kernel)
        (Handles M q (e.enter c.kernel.data) e.exception) ∨
      (e.exception = .SYSCALL ∧ validCall (e.enter c.kernel.data) ∧
        ¬ userMode (e.enter c.kernel.data) ∧
        ∃ k', (∀ n, (kernelEntry M n e).run c.kernel = .error .trap k') ∧
          Derails q (e.enter c.kernel.data).advance (callNumber (e.enter c.kernel.data)) k') ∨
      (e.exception = .INTERRUPT ∧ pendingLine e.state.s_cause = some 2 ∧
        (∃ b, clockSemaphore M < b ∧ q.waiting b ≠ []) ∧
        ∀ n, ∃ k', (kernelEntry M n e).run c.kernel = .error .spin k') := by
  have hn' : Nucleus.Settled M ⟨q, e.enter c.kernel.data⟩ := hn.congr rfl rfl
  simp only [run_kernelEntry]
  cases hex : e.exception with
  | SYSCALL =>
    rcases sysCallHandler_spec hrep hn' (hlegal.isSome_type hex) with
      hdone | ⟨hvalid, huser, k', hk, hderails⟩
    · exact .inl hdone.bind
    · exact .inr (.inl ⟨rfl, hvalid, huser, k', fun n => Exec.run_bind_error (hk n), hderails⟩)
  | PGMTRAP =>
    have hpull := (pullUpAndDie_spec .PROGTRAP hrep hn').mono fun _ _ => Handles.pgmTrap
    exact .inl hpull.bind
  | TLBTRAP =>
    have hpull := (pullUpAndDie_spec .TLBTRAP hrep hn').mono fun _ _ => Handles.tlbTrap
    exact .inl hpull.bind
  | INTERRUPT =>
    have harea : (e.enter c.kernel.data).old .INTPOLDAREA = e.state := by
      simp [Entry.enter, hex, Exception.area]
    by_cases hlast : pendingLine e.state.s_cause = some 2 →
        ∀ b, clockSemaphore M < b → q.waiting b = []
    · exact .inl (ioTrapHandler_spec hrep hn' (harea ▸ hlast))
    · simp only [Classical.not_imp, not_forall] at hlast
      obtain ⟨hline, b, hb, hwait⟩ := hlast
      refine .inr (.inr ⟨rfl, hline, ⟨b, hb, hwait⟩, fun n => ?_⟩)
      exact ioTrapHandler_spin hrep hn' (harea ▸ hline) ⟨b, hb, hwait⟩

/-- Every step does what `Handles` says, unless a system call derails it. -/
theorem step_spec (hstep : (nucleus M).step c e c') (hrep : Represents c.kernel.heap q)
    (hn : Nucleus.Settled M ⟨q, c.kernel.data⟩) :
    (∃ n next, c'.Follows M q (e.enter c.kernel.data) e.exception n next) ∨
      (e.exception = .SYSCALL ∧ validCall (e.enter c.kernel.data) ∧
        ¬ userMode (e.enter c.kernel.data) ∧ c'.stop = .trap ∧
        Derails q (e.enter c.kernel.data).advance (callNumber (e.enter c.kernel.data))
          c'.kernel) := by
  obtain ⟨hlegal, n, hrun, hspin⟩ := hstep
  have hnot : ¬ ∃ k, (kernelEntry M n e).run c.kernel = .error .spin k := by
    rintro ⟨k, hk⟩
    rw [hk] at hrun
    simp only [EStateM.Result.error.injEq] at hrun
    exact hspin hrun.1.symm
  rcases kernelEntry_spec hrep hn hlegal with hdone | ⟨hex, hvalid, huser, k, hk, hderails⟩ | hhangs
  · rcases hdone.does n with hk | ⟨n', next, hhandles, h', hends, hrep'⟩
    · exact absurd hk hnot
    · rw [hends] at hrun
      simp only [EStateM.Result.error.injEq] at hrun
      refine .inl ⟨n', next, hhandles, hrun.1.symm, ?_, ?_⟩
      · rw [← hrun.2]
      · rw [← hrun.2]
        exact hrep'
  · rw [hk] at hrun
    simp only [EStateM.Result.error.injEq] at hrun
    exact .inr ⟨hex, hvalid, huser, hrun.1.symm, hrun.2 ▸ hderails⟩
  · exact absurd (hhangs.2.2.2 n) hnot

theorem Config.Dead.of_derails {call : Int} {d : Data} (hstop : c.stop = .trap)
    (hderails : Derails q d call c.kernel) : c.Dead := by
  cases hderails with
  | create _ _ hcur _ => exact ⟨hstop, hcur⟩
  | clock _ hcur _ _ _ _ => exact ⟨hstop, hcur⟩

/-- Only traps come after a trap of the nucleus. -/
theorem Config.Dead.exception (hdead : c.Dead) (hlegal : Legal M c e) :
    e.exception = .PGMTRAP := by
  have hresumes := hlegal.resumes
  rw [hdead.stop] at hresumes
  generalize e.exception = ex at hresumes ⊢
  cases hresumes
  rfl

/-- Without a current process the handler of program traps runs into the next one. -/
theorem Config.Dead.run {n : Nat} (hdead : c.Dead) (hlegal : Legal M c e) :
    (kernelEntry M n e).run c.kernel = .error .trap ⟨c.kernel.heap, e.enter c.kernel.data⟩ := by
  have htrap : (pullUpAndDie M n .PROGTRAP).run ⟨c.kernel.heap, e.enter c.kernel.data⟩ =
      .error .trap ⟨c.kernel.heap, e.enter c.kernel.data⟩ := run_pullUpAndDie_null hdead.current
  rw [run_kernelEntry, hdead.exception hlegal]
  exact Exec.run_bind_error htrap

/-- A dead nucleus stays dead, and its tables stay as they are. -/
theorem Config.Dead.step (hdead : c.Dead) (hstep : (nucleus M).step c e c') :
    c'.Dead ∧ c'.kernel = ⟨c.kernel.heap, e.enter c.kernel.data⟩ := by
  obtain ⟨hlegal, n, hrun, -⟩ := hstep
  rw [hdead.run hlegal] at hrun
  simp only [EStateM.Result.error.injEq] at hrun
  exact ⟨⟨hrun.1.symm, by rw [← hrun.2]; exact hdead.current⟩, hrun.2.symm⟩

theorem Config.Dead.path {l : List (Entry × Config)} (hdead : c.Dead)
    (hpath : (nucleus M).Path c l c') : c'.Dead := by
  induction hpath with
  | nil => exact hdead
  | cons hstep _ ih => exact ih (hdead.step hstep).1

end Kaya
