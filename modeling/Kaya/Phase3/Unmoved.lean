import Kaya.Phase3.Processes

open Exec

namespace Kaya

open Code

/-! What holds throughout the code of phase 3 if the pager and the end of a process keep it. -/

/-- The operation belongs neither to a device, the pager nor the end of a process. -/
def Op.isPlain : Op → Bool
  | passeren s => s ≠ .masterSem
  | verhogen s => s ≠ .masterSem
  | terminateProcess => false
  | getEntryLO _ => false
  | setEntryLO _ _ => false
  | getSwap _ => false
  | setSwap _ _ => false
  | getNext => false
  | setNext _ => false
  | waitio _ => false
  | _ => true

variable {Γ α : Type} {C : Prog.Contract Op Op.Answer Γ} {g : Γ} {S : Setup} {ID : Word} {n : Nat}

/-- The commands of the system calls and of the boot code: a disk or a tape transfers
only to and from the tape buffer. -/
def Command.IsSystem (ID : Word) (c : Command) : Prop :=
  c.d_data0 = none ∨ c.d_data0 = some (tapeBuffer ID) ∨
    c.devNum ≠ DISK0 ∧ c.line ≠ BitVec.ofNat 32 TAPEINT

/-- All code of phase 3 keeps the logical state `g` of a contract. -/
structure Unmoved (C : Prog.Contract Op Op.Answer Γ) (g : Γ) (S : Setup) (ID : Word) : Prop where
  plain : ∀ o : Op, o.isPlain = true → C.pre g o ∧ ∀ r g', C.post g o r g' → g' = g
  device : S.IsProcess ID → ∀ c : Command, c.IsSystem ID →
    C.pre g (.waitio c) ∧ ∀ r g', C.post g (.waitio c) r g' → g' = g
  pager : ∀ segment page, (pager S ID segment page).Meets C g fun g' _ => g' = g
  ends : (meIRL S ID).Meets C g fun _ _ => False

/-- The code keeps `g`. -/
abbrev Stays (C : Prog.Contract Op Op.Answer Γ) (g : Γ) (p : Code α) : Prop :=
  p.Meets C g fun g' _ => g' = g

theorem Stays.bind {γ : Type} {p : Code α} {f : α → Code γ} (h : Stays C g p)
    (hf : ∀ a, Stays C g (f a)) : Stays C g (p >>= f) :=
  Prog.Meets.bind h fun _ a heq => heq ▸ hf a

theorem Stays.pure {a : α} : Stays C g (pure a : Code α) := rfl

theorem Stays.when {c : Prop} [Decidable c] {p : Code Unit} (h : c → Stays C g p) :
    Stays C g (Prog.when c p) := by
  unfold Prog.when
  split
  · exact h ‹c›
  · exact Stays.pure

theorem Stays.ite {c : Prop} [Decidable c] {p q : Code α} (hp : Stays C g p) (hq : Stays C g q) :
    Stays C g (if c then p else q) := by
  split
  · exact hp
  · exact hq

section

variable (hplain : ∀ o : Op, o.isPlain = true → o.isAccess = false →
  C.pre g o ∧ ∀ r g', C.post g o r g' → g' = g)

include hplain

theorem unmoved_wakeLoop {theClock : Word} : Stays C g (wakeLoop theClock n) := by
  have hop : ∀ {o : Op}, o.isPlain = true → o.isAccess = false → Stays C g (Prog.perform o) :=
    fun h h' => hplain _ h h'
  have hstop : ∀ {o : Op} {k : o.Answer → Code Unit}, o.isPlain = true → o.isAccess = false →
      (o.Answer → False) → Stays C g (Prog.call o k) :=
    fun h h' hnone => ⟨(hplain _ h h').1, fun r => (hnone r).elim⟩
  induction n with
  | zero => exact hstop rfl rfl Empty.elim
  | succ n ih =>
    unfold wakeLoop
    refine (hop rfl rfl).bind fun (time : Word) => (hop rfl rfl).bind fun (time' : Word) => ?_
    refine Stays.ite ?_ Stays.pure
    refine (hop rfl rfl).bind fun (ID : Word) => ?_
    refine (Stays.when fun _ => hstop rfl rfl Empty.elim).bind fun _ => ?_
    exact (hop rfl rfl).bind fun _ => ih

/-- The daemon accesses no memory through pointers. -/
theorem unmoved_delayDaemon : Stays C g (delayDaemon n) :=
  Stays.bind (hplain .STCK rfl rfl) fun _ => unmoved_wakeLoop hplain

end

namespace Unmoved

variable (h : Unmoved C g S ID)

include h

theorem perform {o : Op} (ho : o.isPlain = true) : Stays C g (Prog.perform o) := h.plain o ho

theorem waitio (hID : S.IsProcess ID) {c : Command} (hc : c.IsSystem ID) : Stays C g (waitio c) :=
  h.device hID c hc

theorem meIRL : Stays C g (meIRL S ID) := h.ends.mono fun _ _ hfalse => hfalse.elim

theorem panic : Stays C g (panic : Code α) := ⟨(h.plain .panic rfl).1, fun r => r.elim⟩

theorem spin : Stays C g (spin : Code α) := ⟨(h.plain .spin rfl).1, fun r => r.elim⟩

theorem writeChars (hID : S.IsProcess ID) {put : BitVec 8 → Command} {done virtAddr : Word}
    (hput : ∀ char, (put char).IsSystem ID) : Stays C g (writeChars put done virtAddr n) := by
  induction n generalizing virtAddr with
  | zero => rfl
  | succ n ih =>
    unfold Kaya.writeChars
    refine (h.perform rfl).bind fun char => (h.waitio hID (hput char)).bind fun status => ?_
    exact (Stays.when fun _ => h.panic).bind fun _ => ih

theorem readChars (hID : S.IsProcess ID) {get : Command} {addr i : Word} (hget : get.IsSystem ID) :
    Stays C g (readChars get n addr i) := by
  induction n generalizing addr i with
  | zero => exact h.spin
  | succ n ih =>
    unfold Kaya.readChars
    refine (h.waitio hID hget).bind fun (status : Word) => ?_
    refine Stays.ite ?_ ?_
    · exact (Stays.when fun _ => h.panic).bind fun _ => Stays.pure
    · refine (h.perform rfl).bind fun _ => ?_
      exact (Stays.when fun _ => h.panic).bind fun _ => ih

/-- A system call on a device. -/
theorem deviceCall {d : Word} {p : Code α} {result : α → Word} (hp : Stays C g p) :
    Stays C g (do
      Code.passeren (.mutexArray d)
      let i ← p
      setOld ID (.s_reg s_v0) (result i)
      Code.verhogen (.mutexArray d)) := by
  refine (h.perform rfl).bind fun _ => hp.bind fun i => ?_
  exact (h.perform rfl).bind fun _ => h.perform rfl

theorem loadBlock (hID : S.IsProcess ID) {currentBlock : Word} :
    Stays C g (loadBlock ID currentBlock) := by
  unfold Kaya.loadBlock
  refine (h.waitio hID (.inr (.inl rfl))).bind fun tapeStatus => (h.perform rfl).bind fun _ => ?_
  refine (h.waitio hID (.inl rfl)).bind fun (diskStatus : Word) => ?_
  refine Stays.bind (Stays.when fun _ => (h.waitio hID (.inr (.inl rfl))).bind fun _ => Stays.pure)
    fun _ => ?_
  exact (h.perform rfl).bind fun _ => Stays.pure

theorem loadTape (hID : S.IsProcess ID) {currentBlock : Word} :
    Stays C g (loadTape ID n currentBlock) := by
  induction n generalizing currentBlock with
  | zero => exact h.spin
  | succ n ih =>
    unfold Kaya.loadTape
    refine (h.loadBlock hID).bind fun tapeStatus => (h.perform rfl).bind fun (data1 : Word) => ?_
    exact Stays.ite (Stays.ite ih rfl) rfl

theorem uProcInit (hID : S.IsProcess ID) : Stays C g (uProcInit n ID) := by
  unfold Kaya.uProcInit
  exact (h.perform rfl).bind fun _ => (h.loadTape hID).bind fun _ => h.perform rfl

theorem diskIO_stays {blockAddr diskNo sectNo readWrite : Word} :
    Stays C g <| diskIO S blockAddr diskNo sectNo readWrite ID := by
  unfold Kaya.diskIO
  refine (Stays.when fun _ => h.meIRL).bind fun _ => ?_
  refine Prog.Meets.bind (Q := fun _ _ => False) ?_ fun _ _ hfalse => hfalse.elim
  rw [Prog.when, if_pos (diskIO_guard readWrite)]
  exact ⟨(h.plain .panic rfl).1, fun r => r.elim⟩

theorem vSemVirt {semAdd : Word} : Stays C g (vSemVirt S semAdd ID) := by
  unfold Kaya.vSemVirt
  refine (h.perform rfl).bind fun value => (h.perform rfl).bind fun _ => ?_
  refine (h.perform rfl).bind fun value => Stays.when fun _ => ?_
  refine (h.perform rfl).bind fun (theGivingID : Word) => ?_
  exact (Stays.when fun _ => h.meIRL).bind fun _ => h.perform rfl

theorem pSemVirt {semAdd : Word} : Stays C g (pSemVirt semAdd ID) := by
  unfold Kaya.pSemVirt
  refine (h.perform rfl).bind fun value => (h.perform rfl).bind fun _ => ?_
  refine (h.perform rfl).bind fun value => Stays.when fun _ => ?_
  exact (h.perform rfl).bind fun _ => h.perform rfl

theorem delay {seconds : Word} : Stays C g (delay S seconds ID) := by
  unfold Kaya.delay
  refine (Stays.when fun _ => h.meIRL).bind fun _ => ?_
  refine (h.perform rfl).bind fun _ => (h.perform rfl).bind fun time => ?_
  exact (h.perform rfl).bind fun _ => h.perform rfl

theorem vmSysHandler (hID : S.IsProcess ID) : Stays C g (vmSysHandler S n ID) := by
  have hprinter : PRINTDEV + (ID - 1) ≠ DISK0 := by
    have hle := hID.le
    have hmax : S.MAXUSERPROC ≤ 20 := S.processes
    intro heq
    have hprint : PRINTDEV.toNat = 24 := rfl
    have hdisk : DISK0.toNat = 0 := rfl
    have hone : (1 : Word).toNat = 1 := rfl
    have hnat := congrArg BitVec.toNat heq
    rw [BitVec.toNat_add, BitVec.toNat_sub, hprint, hdisk, hone] at hnat
    omega
  have hline : BitVec.ofNat 32 PRNTINT ≠ BitVec.ofNat 32 TAPEINT := by decide
  unfold Kaya.vmSysHandler
  refine (h.perform rfl).bind fun (callNumber : Word) => ?_
  refine (h.perform rfl).bind fun (a1 : Word) => (h.perform rfl).bind fun (a2 : Word) => ?_
  refine (h.perform rfl).bind fun (a3 : Word) => ?_
  apply Stays.ite (h.deviceCall (h.readChars hID (.inl rfl)))
  apply Stays.ite (h.deviceCall (h.writeChars hID fun _ => .inl rfl))
  apply Stays.ite h.vSemVirt
  apply Stays.ite h.pSemVirt
  apply Stays.ite h.delay
  apply Stays.ite h.diskIO_stays
  apply Stays.ite h.diskIO_stays
  apply Stays.ite (h.deviceCall (h.writeChars hID fun _ => .inr (.inr ⟨hprinter, hline⟩)))
  refine Stays.ite ?_ (Stays.ite h.meIRL rfl)
  exact (h.perform rfl).bind fun _ => h.perform rfl

theorem vmMemHandler {oldState : State} : Stays C g (vmMemHandler S oldState ID) := by
  unfold Kaya.vmMemHandler
  exact (Stays.when fun _ => h.meIRL).bind fun _ => h.pager _ _

/-- Whatever a process enters keeps `g`. -/
theorem userProgram (hID : S.IsProcess ID) {entry : UserEntry} :
    Stays C g (userProgram S ID entry) := by
  cases entry with
  | daemon n => exact unmoved_delayDaemon fun o hplain _ => h.plain o hplain
  | boot n => exact h.uProcInit hID
  | call n st => exact h.vmSysHandler hID
  | tlb st => exact h.vmMemHandler
  | program => exact h.meIRL
  | store a => rfl

end Unmoved

end Kaya
