import Kaya.Exec.Script
import Kaya.Phase2.Invariant

open Links Exec

namespace Kaya

/-! Runs of the nucleus that are computed. -/

/-- The configuration that a piece of nucleus code ends in. -/
def Config.of : EStateM.Result Stop Kernel Unit → Config
  | .ok _ k => ⟨.undefined, k⟩
  | .error x k => ⟨x, k⟩

def boot (M : Machine) (mem : Word → Word) (clock : Nat → Word) : Config :=
  .of ((main M).run (Kernel.bss M mem clock))

def Config.handle (M : Machine) (n : Nat) (e : Entry) (c : Config) : Config :=
  .of ((kernelEntry M n e).run c.kernel)

def Stop.isSpin : Stop → Bool
  | .spin => true
  | _ => false

variable {M : Machine} {c : Config} {e : Entry} {n : Nat}

theorem boot_init (M : Machine) (mem : Word → Word) (clock : Nat → Word) :
    (nucleus M).init (boot M mem clock) := by
  obtain ⟨h, d, hrun, -⟩ := main_spec M mem clock
  refine ⟨mem, clock, ?_⟩
  rw [boot, hrun]
  rfl

theorem run_kernelEntry_error (k : Kernel) :
    ∃ x k', (kernelEntry M n e).run k = .error x k' := by
  have hentry : (kernelEntry M n e).run k =
      (handler M n e.exception >>= fun _ => throw .undefined).run ⟨k.heap, e.enter k.data⟩ :=
    bind_modifyData
  rw [hentry, EStateM.run_bind]
  split
  · exact ⟨_, _, rfl⟩
  · exact ⟨_, _, rfl⟩

theorem run_handle (hspin : (c.handle M n e).stop.isSpin = false) :
    (kernelEntry M n e).run c.kernel = .error (c.handle M n e).stop (c.handle M n e).kernel ∧
      (c.handle M n e).stop ≠ .spin := by
  obtain ⟨x, k, hrun⟩ := run_kernelEntry_error (M := M) (n := n) (e := e) c.kernel
  unfold Config.handle at hspin ⊢
  rw [hrun] at hspin ⊢
  refine ⟨rfl, ?_⟩
  rintro rfl
  simp [Config.of, Stop.isSpin] at hspin

theorem handle_step (hlegal : Legal M c e) (hspin : (c.handle M n e).stop.isSpin = false) :
    (nucleus M).step c e (c.handle M n e) :=
  ⟨hlegal, n, run_handle hspin⟩

theorem Reachable.handle (hc : (nucleus M).Reachable c) (hlegal : Legal M c e)
    (hspin : (c.handle M n e).stop.isSpin = false) : (nucleus M).Reachable (c.handle M n e) :=
  hc.step (handle_step hlegal hspin)

instance : Decidable (e.InPlace M) :=
  decidable_of_iff
    (((e.state.s_reg s_a0).toInt = VERHOGEN ∨ (e.state.s_reg s_a0).toInt = PASSEREN →
      ∀ i < TOTALSEM, e.state.s_reg s_a1 ≠ M.semAdd (BitVec.ofNat 32 i)) ∧
    ((e.state.s_reg s_a0).toInt = WAITIO →
      DISKINT ≤ (e.state.s_reg s_a1).toNat ∧ (e.state.s_reg s_a1).toNat ≤ TERMINT ∧
        (e.state.s_reg s_a2).toNat < DEVPERINT ∧ (e.state.s_reg s_a3 = 0 ∨
          e.state.s_reg s_a3 = 1 ∧ (e.state.s_reg s_a1).toNat = TERMINT)))
    ⟨fun h => ⟨h.1, h.2⟩, fun h => ⟨h.semaphore, h.device⟩⟩

instance : Decidable (e.Arguments M) :=
  decidable_of_iff (e.InPlace M ∧
      ((e.state.s_reg s_a0).toInt = SESV → (TrapType.ofWord (e.state.s_reg s_a1)).isSome))
    ⟨fun h => ⟨h.1, h.2⟩, fun h => ⟨h.toInPlace, h.type⟩⟩

theorem Resumes.of_LDST {x : Stop} {ex : Exception} (hstop : x.isLDST = true) : Resumes x ex := by
  cases x with
  | LDST ref st => exact .LDST
  | _ => simp [Stop.isLDST] at hstop

/-- After a state has been loaded anything may happen that leaves the semaphores
of the nucleus alone. -/
theorem Legal.of_LDST (hstop : c.stop.isLDST = true)
    (hsem : ∀ i < TOTALSEM, e.mem (M.semAdd (BitVec.ofNat 32 i)) =
      c.kernel.data.mem (M.semAdd (BitVec.ofNat 32 i)))
    (hargs : e.exception = .SYSCALL → e.state.s_status &&& KUON = ALLOFF → e.Arguments M) :
    Legal M c e where
  resumes := .of_LDST hstop
  quiet h := by simp [hstop] at h
  semaphores := hsem
  arguments := hargs

/-- A state with a cause and with arguments in the registers. -/
def State.ofArgs (cause a0 a1 a2 a3 : Word) : State :=
  ((((State.zero.set .s_cause cause).set (.s_reg s_a0) a0).set (.s_reg s_a1) a1).set
    (.s_reg s_a2) a2).set (.s_reg s_a3) a3

/-- A system call with the given arguments. -/
def Config.call (c : Config) (a0 a1 a2 a3 : Word) : Entry where
  exception := .SYSCALL
  state := State.ofArgs 0 a0 a1 a2 a3
  mem := c.kernel.data.mem
  interrupt_dev _ := 0
  devreg _ := ⟨0, 0, 0, 0⟩

/-- An interrupt with the given cause, pending devices and device registers. -/
def Config.interrupt (c : Config) (cause bitMap : Word) (devreg : Nat → Device) : Entry where
  exception := .INTERRUPT
  state := State.ofArgs cause 0 0 0 0
  mem := c.kernel.data.mem
  interrupt_dev _ := bitMap
  devreg := devreg

/-- A program trap. -/
def Config.programTrap (c : Config) : Entry where
  exception := .PGMTRAP
  state := State.ofArgs (RI <<< 2) 0 0 0 0
  mem := c.kernel.data.mem
  interrupt_dev _ := 0
  devreg _ := ⟨0, 0, 0, 0⟩

theorem Legal.call {a0 a1 a2 a3 : Word} (hstop : c.stop.isLDST = true)
    (hargs : (c.call a0 a1 a2 a3).Arguments M) : Legal M c (c.call a0 a1 a2 a3) :=
  .of_LDST hstop (fun _ _ => rfl) fun _ _ => hargs

theorem Legal.interrupt {cause bitMap : Word} {devreg : Nat → Device}
    (hstop : c.stop.isLDST = true) : Legal M c (c.interrupt cause bitMap devreg) :=
  .of_LDST hstop (fun _ _ => rfl) nofun

def Stop.isWAIT : Stop → Bool
  | .WAIT => true
  | _ => false

/-- An interrupt that the nucleus waits for. -/
theorem Legal.wait {cause bitMap : Word} {devreg : Nat → Device} (hstop : c.stop.isWAIT = true) :
    Legal M c (c.interrupt cause bitMap devreg) := by
  refine ⟨?_, fun _ => rfl, fun _ _ => rfl, nofun⟩
  cases hcase : c.stop with
  | WAIT => exact .WAIT
  | _ => simp [hcase, Stop.isWAIT] at hstop

def Stop.isTrap : Stop → Bool
  | .trap => true
  | _ => false

/-- A program trap of the nucleus. -/
theorem Legal.trap (hstop : c.stop.isTrap = true) : Legal M c c.programTrap := by
  refine ⟨?_, fun _ => rfl, fun _ _ => rfl, nofun⟩
  cases hcase : c.stop with
  | trap => exact .trap
  | _ => simp [hcase, Stop.isTrap] at hstop

/-- The words of a small memory. -/
def smallMem (a : Word) : Bool :=
  decide (a.toNat % 4 = 0 ∧ 0x20001000 ≤ a.toNat ∧ a.toNat < 0x20010000)

/-- A machine with a small memory that can be read and written. -/
def smallMachine : Machine where
  sem := 0x20002000
  test := 0x20001000
  RAMTOP := 0x20010000
  rom := .null
  readable := smallMem
  writable := smallMem
  readable_of_writable _ h := h
  aligned a h := by
    simp only [smallMem, decide_eq_true_eq] at h
    exact h.1
  below a h := by
    simp only [smallMem, decide_eq_true_eq] at h
    have hmax : MAXINT.toNat = 0xEFFFFFFF := rfl
    rw [BitVec.lt_def]
    omega
  sem_writable := by decide +kernel
  sem_fits := by decide
  rom_ne _ := nofun

/-- The small machine, booted with cleared memory. -/
def smallBoot : Config := boot smallMachine (fun _ => 0) fun _ => 0

theorem smallBoot_reachable : (nucleus smallMachine).Reachable smallBoot :=
  .init (boot_init smallMachine _ _)

theorem smallBoot_restrict {P : Config → Entry → Config → Prop} :
    ((nucleus smallMachine).restrict P).Reachable smallBoot :=
  .init (boot_init smallMachine _ _)

/-- A system call on the small machine. -/
def Config.calling (c : Config) (a0 a1 a2 a3 : Word) : Config :=
  c.handle smallMachine 3 (c.call a0 a1 a2 a3)

/-- The end of a time slice. -/
def Config.slice (c : Config) : Config :=
  c.handle smallMachine 3 (c.interrupt LINEONE 0 fun _ => ⟨0, 0, 0, 0⟩)

theorem Config.call_calls {a0 a1 a2 a3 : Word} : (c.call a0 a1 a2 a3).calls a0.toInt := by
  refine ⟨rfl, ?_, rfl⟩
  simp [Config.call, State.ofArgs, State.set, State.zero, ALLOFF]

/-- Only P, V, SYS5 and SYS8 have arguments that may be out of place. -/
theorem Config.call_arguments {a0 a1 a2 a3 : Word}
    (ha : a0.toInt ∉ [VERHOGEN, PASSEREN, SESV, WAITIO]) : (c.call a0 a1 a2 a3).Arguments M := by
  have hcall := (@Config.call_calls c a0 a1 a2 a3).2.2
  refine ⟨⟨?_, ?_⟩, ?_⟩
  · rintro (heq | heq) <;> exact absurd (hcall.symm.trans heq) (by simp_all)
  · exact fun heq => absurd (hcall.symm.trans heq) (by simp_all)
  · exact fun heq => absurd (hcall.symm.trans heq) (by simp_all)

/-- A call with arguments that are in place. -/
theorem step_call (a0 a1 a2 a3 : Word) (hstop : c.stop.isLDST = true)
    (hargs : (c.call a0 a1 a2 a3).Arguments smallMachine)
    (hspin : (c.calling a0 a1 a2 a3).stop.isSpin = false) :
    (nucleus smallMachine).step c (c.call a0 a1 a2 a3) (c.calling a0 a1 a2 a3) :=
  handle_step (.call hstop hargs) hspin

theorem step_calling (a0 a1 a2 a3 : Word) (hstop : c.stop.isLDST = true)
    (ha : a0.toInt ∉ [VERHOGEN, PASSEREN, SESV, WAITIO])
    (hspin : (c.calling a0 a1 a2 a3).stop.isSpin = false) :
    (nucleus smallMachine).step c (c.call a0 a1 a2 a3) (c.calling a0 a1 a2 a3) :=
  step_call a0 a1 a2 a3 hstop (c.call_arguments ha) hspin

theorem step_slice (hstop : c.stop.isLDST = true) (hspin : c.slice.stop.isSpin = false) :
    (nucleus smallMachine).step c (c.interrupt LINEONE 0 fun _ => ⟨0, 0, 0, 0⟩) c.slice :=
  handle_step (.interrupt hstop) hspin

/-! Longer runs on the small machine are played: each of their steps is checked while it is
computed. -/

/-- What comes next in a run. -/
inductive Cue where
  | call (a0 a1 a2 a3 : Word)
  | interrupt (cause bitMap : Word) (devreg : Nat → Device)
  | programTrap

/-- The end of a time slice. -/
def Cue.slice : Cue := .interrupt LINEONE 0 fun _ => ⟨0, 0, 0, 0⟩

def Cue.entry (c : Config) : Cue → Entry
  | .call a0 a1 a2 a3 => c.call a0 a1 a2 a3
  | .interrupt cause bitMap devreg => c.interrupt cause bitMap devreg
  | .programTrap => c.programTrap

def Cue.next (c : Config) (cue : Cue) : Config := c.handle smallMachine 5 (cue.entry c)

/-- Whether the exception can come after the nucleus has been left so. -/
def Stop.resumes : Stop → Exception → Bool
  | .LDST _ _, _ => true
  | .WAIT, .INTERRUPT => true
  | .trap, .PGMTRAP => true
  | _, _ => false

theorem Stop.resumes_spec {x : Stop} {ex : Exception} (h : x.resumes ex = true) :
    Resumes x ex := by
  cases x with
  | LDST ref st => exact .LDST
  | WAIT => cases ex <;> first | exact .WAIT | simp [Stop.resumes] at h
  | trap => cases ex <;> first | exact .trap | simp [Stop.resumes] at h
  | _ => simp [Stop.resumes] at h

/-- A cue that makes a step, whatever the type of a SYS5. -/
def Cue.occurs (c : Config) (cue : Cue) : Bool :=
  c.stop.resumes (cue.entry c).exception && decide ((cue.entry c).InPlace smallMachine) &&
    !(cue.next c).stop.isSpin

/-- A cue that makes a step of the nucleus. -/
def Cue.legal (c : Config) (cue : Cue) : Bool :=
  cue.occurs c && decide ((cue.entry c).Arguments smallMachine)

theorem Cue.mem_entry {cue : Cue} : (cue.entry c).mem = c.kernel.data.mem := by
  cases cue <;> rfl

/-- Runs of the nucleus on the small machine. -/
def smallScript : Script Config Entry Cue where
  event := Cue.entry
  next := Cue.next
  fits := Cue.legal

/-- Runs in which SYS5 is called with any type. -/
def anyScript : Script Config Entry Cue := { smallScript with fits := Cue.occurs }

theorem anyScript_follows : anyScript.Follows (unchecked smallMachine) := by
  intro c cue h
  simp only [anyScript, Cue.occurs, Bool.and_eq_true, decide_eq_true_eq, Bool.not_eq_true'] at h
  obtain ⟨⟨hresumes, hargs⟩, hspin⟩ := h
  have hoccurs : Occurs smallMachine c (cue.entry c) :=
    ⟨Stop.resumes_spec hresumes, fun _ => cue.mem_entry, fun _ _ => congrFun cue.mem_entry _,
      fun _ _ => hargs⟩
  exact ⟨hoccurs, 5, run_handle hspin⟩

theorem smallScript_follows : smallScript.Follows (nucleus smallMachine) := by
  intro c cue h
  simp only [smallScript, Cue.legal, Bool.and_eq_true, decide_eq_true_eq] at h
  obtain ⟨hoccurs, hrun⟩ := anyScript_follows c cue h.1
  exact ⟨⟨hoccurs.resumes, hoccurs.quiet, hoccurs.semaphores, fun _ _ => h.2⟩, hrun⟩

/-- The small machine after some cues. -/
def smallPlay (l : List Cue) : Config := smallScript.play smallBoot l

theorem smallPlay_reachable {l : List Cue} (h : smallScript.plays smallBoot l = true) :
    (nucleus smallMachine).Reachable (smallPlay l) :=
  smallScript_follows.reachable smallBoot_reachable h

end Kaya
