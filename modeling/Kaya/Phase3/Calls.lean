import Kaya.Exec.Alone
import Kaya.Phase3.VmIOSupport

open Exec Prog

namespace Kaya

open Code

/-- The operation touches neither memory through a pointer nor a device or its
mutex, and of the old area of a process it changes at most the result. -/
def Op.isQuiet : Op → Bool
  | passeren (.mutexArray _) => false
  | verhogen (.mutexArray _) => false
  | setOld _ f _ => f = .s_reg s_v0
  | loadWord _ => false
  | storeWord _ _ => false
  | loadByte _ => false
  | storeByte _ _ => false
  | waitio _ => false
  | _ => true

/-- The operation does not concern the sleepers: neither their semaphores nor the
lists of them, and of the old area of a process it changes at most the result. -/
def Op.isAwake : Op → Bool
  | passeren (.uProc_semAdd _) => false
  | verhogen (.uProc_semAdd _) => false
  | setOld _ f _ => f = .s_reg s_v0
  | vInsertBlocked _ _ => false
  | vRemoveBlocked _ => false
  | insertDelay _ _ => false
  | headDelayTime => false
  | removeDelay => false
  | _ => true

/-- The operations with which a process ends. -/
def Op.isExit : Op → Bool
  | passeren s => s = .swap
  | verhogen s => s = .swap || s = .masterSem
  | getSwap _ => true
  | setSwap _ _ => true
  | getEntryLO _ => true
  | setEntryLO _ _ => true
  | terminateProcess => true
  | _ => false

/-- The operations of the pager. -/
def Op.isPaging : Op → Bool
  | passeren s => s = .swap || s = .mutexArray DISK0
  | verhogen s => s = .swap || s = .mutexArray DISK0
  | panic => true
  | getSwap _ => true
  | setSwap _ _ => true
  | getEntryLO _ => true
  | setEntryLO _ _ => true
  | getNext => true
  | setNext _ => true
  | waitio _ => true
  | _ => false

variable {S : Setup} {P : Op → Prop} {ID : Word} {α : Type}

theorem always_pager {segment page : Word} (hpaging : ∀ o : Op, o.isPaging = true → P o) :
    (pager S ID segment page).Always P := by
  have hop : ∀ {o : Op}, o.isPaging = true → (perform o : Code _).Always P :=
    fun h => always_perform (hpaging _ h)
  have hbacking : ∀ {cylinder sector head isRead address : Word},
      (readWriteBacking cylinder sector head isRead address).Always P := by
    intro cylinder sector head isRead address
    have hpanic : (panic : Code Unit).Always P := ⟨hpaging _ rfl, fun r => r.elim⟩
    unfold readWriteBacking
    refine (always_when fun _ => hpanic).bind fun _ => (hop rfl).bind fun _ => ?_
    refine (hop rfl).bind fun (diskStatus : Word) =>
      Always.bind (always_when fun _ => ?_) fun _ => hop rfl
    exact (hop rfl).bind fun _ => trivial
  unfold pager
  refine (hop rfl).bind fun _ => Always.bind ?_ fun newFrame => Always.bind ?_ fun _ =>
    hbacking.bind fun _ => Always.bind ?_ fun _ => hop rfl
  · unfold spinTheBottle
    exact (hop rfl).bind fun _ => (hop rfl).bind fun _ => trivial
  · unfold evict
    refine (hop rfl).bind fun (frame : Swap) => always_when fun _ => ?_
    exact (hop rfl).bind fun _ => (hop rfl).bind fun _ => hbacking
  · unfold validate
    split
    all_goals exact (hop rfl).bind fun _ => hop rfl

theorem always_exit (hexit : ∀ o : Op, o.isExit = true → P o) : (meIRL S ID).Always P := by
  have hop : ∀ {o : Op}, o.isExit = true → (perform o : Code _).Always P :=
    fun h => always_perform (hexit _ h)
  unfold meIRL
  refine (hop rfl).bind fun _ => (always_forM fun index => ?_).bind fun _ => ?_
  · unfold releaseFrame
    refine (hop rfl).bind fun frame => always_when fun _ => ?_
    exact (hop rfl).bind fun entry => (hop rfl).bind fun _ => hop rfl
  · refine (hop rfl).bind fun _ => (hop rfl).bind fun _ => ?_
    exact ⟨hexit _ rfl, fun r => r.elim⟩

/-- A process that ends does not return to its caller. -/
theorem noReturn_meIRL : (meIRL S ID).NoReturn := by
  unfold meIRL
  refine NoReturn.bind fun _ => NoReturn.bind fun _ => NoReturn.bind fun _ => ?_
  exact NoReturn.bind fun _ r => r.elim

section

variable (hplain : ∀ o : Op, o.isQuiet = true → o.isAwake = true → P o)

include hplain

theorem always_panic : (panic : Code α).Always P := ⟨hplain _ rfl rfl, fun r => r.elim⟩

theorem always_spin : (spin : Code α).Always P := ⟨hplain _ rfl rfl, fun r => r.elim⟩

theorem always_meIRL : (meIRL S ID).Always P := by
  refine always_exit fun o hexit => ?_
  have hboth : o.isQuiet = true ∧ o.isAwake = true := by
    cases o with
    | passeren s =>
      obtain rfl : s = .swap := by simpa [Op.isExit] using hexit
      exact ⟨rfl, rfl⟩
    | verhogen s =>
      obtain rfl | rfl : s = .swap ∨ s = .masterSem := by simpa [Op.isExit] using hexit
      · exact ⟨rfl, rfl⟩
      · exact ⟨rfl, rfl⟩
    | _ => first | exact ⟨rfl, rfl⟩ | exact absurd hexit Bool.false_ne_true
  exact hplain o hboth.1 hboth.2

/-- `diskIO` does not get as far as a disk. -/
theorem always_diskIO {blockAddr diskNo sectNo readWrite : Word} :
    diskIO S blockAddr diskNo sectNo readWrite ID |>.Always P := by
  unfold diskIO
  refine (always_when fun _ => always_meIRL hplain).bind fun _ => ?_
  dsimp only
  rw [Prog.when, if_pos (diskIO_guard readWrite)]
  exact ⟨hplain _ rfl rfl, fun r => r.elim⟩

theorem always_writeChars {put : BitVec 8 → Command} {status : Word} (hwait : ∀ c, P (.waitio (put c)))
    {n : Nat} {virtAddr : Word} (hload : ∀ j < n, P (.loadByte (virtAddr + BitVec.ofNat 32 j))) :
    (writeChars put status virtAddr n).Always P := by
  induction n generalizing virtAddr with
  | zero => trivial
  | succ n ih =>
    unfold writeChars
    refine (always_perform ?_).bind fun char => (always_perform (hwait _)).bind fun answer => ?_
    · simpa using hload 0 (Nat.succ_pos n)
    · refine (always_when fun _ => always_panic hplain).bind fun _ => ih fun j hj => ?_
      have hnext := hload (j + 1) (Nat.succ_lt_succ hj)
      rwa [Nat.add_comm, BitVec.ofNat_add, ← BitVec.add_assoc] at hnext

theorem always_readChars {get : Command} (hwait : P (.waitio get)) {n : Nat} {addr i : Word}
    (hstore : ∀ j < n, ∀ b, P (.storeByte (addr + BitVec.ofNat 32 j) b)) :
    (readChars get n addr i).Always P := by
  induction n generalizing addr i with
  | zero => exact always_spin hplain
  | succ n ih =>
    unfold readChars
    refine (always_perform hwait).bind fun (status : Word) => ?_
    refine always_ite (fun _ => ?_) fun _ => ?_
    · exact (always_when fun _ => always_panic hplain).bind fun _ => trivial
    · refine (always_perform ?_).bind fun _ => ?_
      · simpa using hstore 0 (Nat.succ_pos n) _
      · refine (always_when fun _ => always_panic hplain).bind fun _ => ih fun j hj b => ?_
        have hnext := hstore (j + 1) (Nat.succ_lt_succ hj) b
        rwa [Nat.add_comm, BitVec.ofNat_add, ← BitVec.add_assoc] at hnext

/-- A loop between a P and a V on the mutex of a device. -/
theorem always_deviceCall {p : Code α} {d : Word} {result : α → Word}
    (hmutex : P (.passeren (.mutexArray d)) ∧ P (.verhogen (.mutexArray d))) (hp : p.Always P) :
    (do
      passeren (.mutexArray d)
      let i ← p
      setOld ID (.s_reg s_v0) (result i)
      verhogen (.mutexArray d) : Code Unit).Always P := by
  refine (always_perform hmutex.1).bind fun _ => hp.bind fun i => ?_
  refine (always_perform (hplain _ ?_ ?_)).bind fun _ => always_perform hmutex.2
  · simp [Op.isQuiet]
  · simp [Op.isAwake]

end

section pointer

variable {semAdd : Word} (hload : P (.loadWord semAdd)) (hstore : ∀ v, P (.storeWord semAdd v))

include hload hstore

theorem always_vSemVirt (hplain : ∀ o : Op, o.isQuiet = true → o.isAwake = true → P o)
    (hremove : P (.vRemoveBlocked semAdd)) (hwake : ∀ k, P (.verhogen (.uProc_semAdd k))) :
    (vSemVirt S semAdd ID).Always P := by
  unfold vSemVirt
  refine (always_perform hload).bind fun value => (always_perform (hstore _)).bind fun _ => ?_
  refine (always_perform hload).bind fun value => always_when fun _ => ?_
  refine (always_perform hremove).bind fun (theGivingID : Word) => ?_
  exact (always_when fun _ => always_meIRL hplain).bind fun _ => always_perform (hwake _)

theorem always_pSemVirt (hinsert : P (.vInsertBlocked semAdd ID))
    (hsleep : P (.passeren (.uProc_semAdd ID))) : (pSemVirt semAdd ID).Always P := by
  unfold pSemVirt
  refine (always_perform hload).bind fun value => (always_perform (hstore _)).bind fun _ => ?_
  refine (always_perform hload).bind fun value => always_when fun _ => ?_
  exact (always_perform hinsert).bind fun _ => always_perform hsleep

end pointer

theorem always_delay {seconds : Word}
    (hplain : ∀ o : Op, o.isQuiet = true → o.isAwake = true → P o)
    (hinsert : ∀ a, P (.vInsertBlocked a ID)) (hdelay : ∀ t, P (.insertDelay t ID))
    (hsleep : P (.passeren (.uProc_semAdd ID))) : (delay S seconds ID).Always P := by
  unfold delay
  refine (always_when fun _ => always_meIRL hplain).bind fun _ => ?_
  refine (always_perform (hinsert _)).bind fun _ => ?_
  refine (always_perform (hplain _ rfl rfl)).bind fun (time : Word) => ?_
  exact (always_perform (hdelay _)).bind fun _ => always_perform hsleep

end Kaya
