import Kaya.Exec.LockOrder
import Kaya.Phase3.Processes

open Exec

namespace Kaya

open Code

/-- The order of the mutexes: the devices of a process first, then `swap`, then the
backing store. -/
def lockRank : Sem → Nat
  | .swap => 1
  | .mutexArray d => if d = DISK0 then 2 else 0
  | _ => 0

/-- The index of the mutex of the device that a command goes to: the two halves of a
terminal have one each. -/
def Command.mutex (c : Command) : Word :=
  if c.transm then c.devNum + BitVec.ofNat 32 DEVPERINT else c.devNum

/-- Memory is accessed for a process only while the pager and the backing store
are not taken. -/
def calm (held : List Sem) (o : Op) : Prop :=
  o.isAccess = true → Sem.swap ∉ held ∧ Sem.mutexArray DISK0 ∉ held

/-- A command is given only by a process that has taken the mutex of the device. -/
def guarded (held : List Sem) : Op → Prop
  | .waitio c => .mutexArray c.mutex ∈ held
  | _ => True

/-- What the mutexes are for. -/
def steady (held : List Sem) (o : Op) : Prop := calm held o ∧ guarded held o

def Op.isCommand : Op → Bool
  | waitio _ => true
  | _ => false

/-- The operation needs no mutex and may be done with any. -/
def Op.isUnguarded (o : Op) : Bool := !o.isAccess && !o.isCommand

section

variable {β α : Type} {S : Setup} {outer held : List Sem} {s : Sem} {ID d : Word} {o : Op} {n : Nat}

/-- How the code of phase 3 may use mutexes. -/
abbrev mutexContract (β : Type) (S : Setup) (outer : List Sem) :
    Prog.Contract Op Op.Answer (List Sem) :=
  (userThreads (β := β) S).orderContract lockRank steady outer

/-- The code takes its mutexes in order, and returns with those it was called with. -/
abbrev Keeps (β : Type) (S : Setup) (outer held : List Sem) (p : Code α) : Prop :=
  p.Meets (mutexContract β S outer) held fun held' _ => held' = held

theorem Keeps.bind {γ : Type} {p : Code α} {f : α → Code γ} (h : Keeps β S outer held p)
    (hf : ∀ a, Keeps β S outer held (f a)) : Keeps β S outer held (p >>= f) :=
  Prog.Meets.bind h fun _ a heq => heq ▸ hf a

theorem keeps_pure {a : α} : Keeps β S outer held (pure a : Code α) := rfl

theorem keeps_when {c : Prop} [Decidable c] {p : Code Unit} (h : c → Keeps β S outer held p) :
    Keeps β S outer held (Prog.when c p) := by
  unfold Prog.when
  split
  · exact h ‹c›
  · exact keeps_pure

theorem keeps_ite {c : Prop} [Decidable c] {p q : Code α} (hp : Keeps β S outer held p)
    (hq : Keeps β S outer held q) : Keeps β S outer held (if c then p else q) := by
  split
  · exact hp
  · exact hq

theorem guarded_of_isCommand (h : o.isCommand = false) : guarded held o := by
  cases o with
  | waitio c => exact absurd h nofun
  | _ => trivial

/-- Operations on anything but semaphores, devices and the memory of processes. -/
theorem keeps_perform (hkind : opKind S o = .other) (hfree : o.isUnguarded = true) :
    Keeps β S outer held (Prog.perform o) := by
  obtain ⟨haccess, hcommand⟩ : o.isAccess = false ∧ o.isCommand = false := by
    simpa [Op.isUnguarded] using hfree
  have hsteady : steady (held ++ outer) o :=
    ⟨fun htrue => absurd (haccess.symm.trans htrue) nofun, guarded_of_isCommand hcommand⟩
  exact Threads.meets_other hkind hsteady fun _ => rfl

theorem keeps_access (hkind : opKind S o = .other) (hcommand : o.isCommand = false)
    (hswap : .swap ∉ held ++ outer) (hdisk : .mutexArray DISK0 ∉ held ++ outer) :
    Keeps β S outer held (Prog.perform o) :=
  Threads.meets_other hkind ⟨fun _ => ⟨hswap, hdisk⟩, guarded_of_isCommand hcommand⟩ fun _ => rfl

/-- A command to a device whose mutex has been taken. -/
theorem keeps_waitio {c : Command} (hmem : .mutexArray c.mutex ∈ held ++ outer) :
    Keeps β S outer held (waitio c) :=
  Threads.meets_other rfl ⟨nofun, hmem⟩ fun _ => rfl

theorem meets_panic {Q : List Sem → α → Prop} :
    (panic : Code α).Meets (mutexContract β S outer) held Q :=
  ⟨trivial, fun r => r.elim⟩

theorem meets_spin {Q : List Sem → α → Prop} :
    (spin : Code α).Meets (mutexContract β S outer) held Q :=
  ⟨⟨nofun, trivial⟩, fun r => r.elim⟩

/-- A process ends only without mutexes. -/
theorem meets_terminateProcess {Q : List Sem → α → Prop} (h : held ++ outer = []) :
    (terminateProcess : Code α).Meets (mutexContract β S outer) held Q :=
  ⟨h, fun r => r.elim⟩

/-- A P on a mutex above all that the process has taken. -/
theorem meets_passeren (hmutex : s.isMutex = true)
    (hbelow : ∀ b ∈ held ++ outer, lockRank b < lockRank s) :
    (passeren s).Meets (mutexContract β S outer) held fun held' _ => held' = s :: held :=
  Threads.meets_passeren rfl ((if_pos hmutex).mpr hbelow) fun _ => if_pos hmutex

/-- The V behind it. -/
theorem meets_verhogen (hmutex : s.isMutex = true) :
    (verhogen s).Meets (mutexContract β S outer) (s :: held) fun held' _ => held' = held := by
  refine Threads.meets_verhogen (a := s) ?_ (fun _ => List.mem_cons_self) fun _ => ?_
  · cases s with
    | uProc_semAdd ID => exact absurd hmutex (by simp [Sem.isMutex])
    | _ => rfl
  · exact (if_pos hmutex).trans (List.erase_cons_head s held)

/-- A P on a semaphore that is no mutex, without any mutex. -/
theorem keeps_passeren (hmutex : s.isMutex = false) : Keeps β S [] [] (passeren s) :=
  Threads.meets_passeren rfl ((if_neg (by simp [userThreads, hmutex])).mpr rfl)
    fun _ => if_neg (by simp [userThreads, hmutex])

theorem keeps_verhogen (hmutex : s.isMutex = false) : Keeps β S outer held (verhogen s) := by
  have hV : opKind S (.verhogen s) = .verhogen s → Keeps β S outer held (verhogen s) := fun hkind =>
    Threads.meets_verhogen hkind (fun htrue => absurd (hmutex.symm.trans htrue) nofun)
      fun _ => if_neg (by simp [userThreads, hmutex])
  cases s with
  | uProc_semAdd ID =>
    by_cases hID : S.IsProcess ID
    · exact hV (if_pos hID)
    · exact keeps_perform (if_neg hID) rfl
  | _ => exact hV rfl

theorem keeps_readWriteBacking {cylinder sector head isRead address : Word}
    (hbelow : ∀ b ∈ held ++ outer, lockRank b < 2) :
    Keeps β S outer held (readWriteBacking cylinder sector head isRead address) := by
  unfold readWriteBacking
  refine (keeps_when fun _ => meets_panic).bind fun _ => ?_
  refine (meets_passeren rfl hbelow).bind ?_
  rintro _ _ rfl
  refine Prog.Meets.bind (keeps_waitio (c := seekCommand DISK0 cylinder) List.mem_cons_self) ?_
  rintro _ _ rfl
  refine Prog.Meets.bind (keeps_when fun _ => (keeps_waitio ?_).bind fun _ => keeps_pure) ?_
  · exact List.mem_cons_self
  rintro _ _ rfl
  exact meets_verhogen rfl

theorem keeps_evict {newFrame : Nat} (hbelow : ∀ b ∈ held ++ outer, lockRank b < 2) :
    Keeps β S outer held (evict S newFrame) := by
  unfold evict
  refine (keeps_perform rfl rfl).bind fun frame => keeps_when fun _ => ?_
  refine (keeps_perform rfl rfl).bind fun entry => ?_
  exact (keeps_perform rfl rfl).bind fun _ => keeps_readWriteBacking hbelow

theorem keeps_validate {missingASID missingSegment missingPage : Word} {newFrame : Nat} :
    Keeps β S outer held (validate S missingASID missingSegment missingPage newFrame) := by
  unfold validate
  split
  all_goals exact (keeps_perform rfl rfl).bind fun _ => keeps_perform rfl rfl

theorem keeps_spinTheBottle : Keeps β S outer held (spinTheBottle S) := by
  unfold spinTheBottle
  exact (keeps_perform rfl rfl).bind fun _ => (keeps_perform rfl rfl).bind fun _ => keeps_pure

/-- The pager takes `swap` and below it the backing store, over the mutex of a device. -/
theorem keeps_pager {missingASID missingSegment missingPage : Word}
    (hbelow : ∀ b ∈ outer, lockRank b = 0) :
    Keeps β S outer [] (pager S missingASID missingSegment missingPage) := by
  have hswap : ∀ b ∈ [] ++ outer, lockRank b < lockRank .swap := by
    intro b hb
    rw [hbelow b hb]
    exact Nat.one_pos
  have hdisk : ∀ b ∈ [.swap] ++ outer, lockRank b < 2 := by
    intro b hb
    rcases List.mem_cons.mp hb with rfl | hb
    · exact Nat.one_lt_two
    · rw [hbelow b hb]
      exact Nat.two_pos
  unfold pager
  refine (meets_passeren rfl hswap).bind ?_
  rintro _ _ rfl
  refine Prog.Meets.bind keeps_spinTheBottle ?_
  rintro _ newFrame rfl
  refine Prog.Meets.bind (keeps_evict hdisk) ?_
  rintro _ _ rfl
  refine Prog.Meets.bind (keeps_readWriteBacking hdisk) ?_
  rintro _ _ rfl
  refine Prog.Meets.bind keeps_validate ?_
  rintro _ _ rfl
  exact meets_verhogen rfl

theorem keeps_forM {l : List Nat} {f : Nat → Code Unit} (h : ∀ i, Keeps β S outer held (f i)) :
    Keeps β S outer held (l.forM f) := by
  induction l with
  | nil => exact keeps_pure
  | cons i l ih => exact (h i).bind fun _ => ih

/-- `meIRL` gives `swap` back before the process ends. -/
theorem meets_meIRL {Q : List Sem → Unit → Prop} :
    (meIRL S ID).Meets (mutexContract β S []) [] Q := by
  unfold meIRL
  refine (meets_passeren rfl (by simp)).bind ?_
  rintro _ _ rfl
  have hrelease : ∀ i, Keeps β S [] [.swap] (releaseFrame ID i) := by
    intro i
    unfold releaseFrame
    refine (keeps_perform rfl rfl).bind fun frame => keeps_when fun _ => ?_
    refine (keeps_perform rfl rfl).bind fun entry => ?_
    exact (keeps_perform rfl rfl).bind fun _ => keeps_perform rfl rfl
  refine Prog.Meets.bind (keeps_forM hrelease) ?_
  rintro _ _ rfl
  refine (meets_verhogen rfl).bind ?_
  rintro _ _ rfl
  refine Prog.Meets.bind (keeps_verhogen rfl) ?_
  rintro _ _ rfl
  exact meets_terminateProcess rfl

theorem keeps_diskIO {blockAddr diskNo sectNo readWrite : Word} :
    Keeps β S [] [] <| diskIO S blockAddr diskNo sectNo readWrite ID := by
  unfold diskIO
  refine (keeps_when fun _ => meets_meIRL).bind fun _ => ?_
  refine Prog.Meets.bind (Q := fun _ _ => False) ?_ fun _ _ hfalse => hfalse.elim
  rw [Prog.when, if_pos (diskIO_guard readWrite)]
  exact meets_panic

section device

variable {d : Word} (hd : d ≠ DISK0)

include hd

theorem keeps_byte (hkind : opKind S o = .other) (hcommand : o.isCommand = false) :
    Keeps β S [] [.mutexArray d] (Prog.perform o) :=
  keeps_access hkind hcommand (by simp) (by simpa using hd.symm)

theorem keeps_writeChars {put : BitVec 8 → Command} {status virtAddr : Word}
    (hput : ∀ char, (put char).mutex = d) :
    Keeps β S [] [.mutexArray d] (writeChars put status virtAddr n) := by
  induction n generalizing virtAddr with
  | zero => exact keeps_pure
  | succ n ih =>
    unfold writeChars
    refine (keeps_byte hd rfl rfl).bind fun char => ?_
    refine (keeps_waitio (hput char ▸ List.mem_cons_self)).bind fun status => ?_
    exact (keeps_when fun _ => meets_panic).bind fun _ => ih

theorem keeps_readChars {get : Command} {addr i : Word} (hget : get.mutex = d) :
    Keeps β S [] [.mutexArray d] (readChars get n addr i) := by
  induction n generalizing addr i with
  | zero => exact meets_spin
  | succ n ih =>
    unfold readChars
    refine (keeps_waitio (hget ▸ List.mem_cons_self)).bind fun (status : Word) => ?_
    refine keeps_ite ?_ ?_
    · exact (keeps_when fun _ => meets_panic).bind fun _ => keeps_pure
    · refine (keeps_byte hd rfl rfl).bind fun _ => ?_
      exact (keeps_when fun _ => meets_panic).bind fun _ => ih

end device

/-- The mutexes of the devices that a process uses are not that of disk 0. -/
theorem deviceMutex_ne (hID : S.IsProcess ID) (base : Word) (hpos : 0 < base) (hle : base ≤ 40) :
    base + (ID - 1) ≠ DISK0 := by
  obtain ⟨hlo, hhi⟩ := hID
  have hmax := S.processes
  have hhi' : ID.toNat ≤ 20 := by
    have hnat : ID.toNat ≤ (BitVec.ofNat 32 S.MAXUSERPROC).toNat := hhi
    rw [BitVec.toNat_ofNat] at hnat
    exact le_trans (le_trans hnat (Nat.mod_le _ _)) hmax
  simp only [DISK0]
  bv_omega

/-- A system call on a device: its loop, the result, all between P and V. -/
theorem keeps_deviceCall {p : Code α} {result : α → Word}
    (h : Keeps β S [] [.mutexArray d] p) :
    Keeps β S [] [] (do
      passeren (.mutexArray d)
      let i ← p
      setOld ID (.s_reg s_v0) (result i)
      verhogen (.mutexArray d)) := by
  refine (meets_passeren rfl (by simp)).bind ?_
  rintro _ _ rfl
  refine Prog.Meets.bind h ?_
  rintro _ i rfl
  refine Prog.Meets.bind (keeps_perform rfl rfl) ?_
  rintro _ _ rfl
  exact meets_verhogen rfl

theorem keeps_pointer (hkind : opKind S o = .other) (hcommand : o.isCommand = false) :
    Keeps β S [] [] (Prog.perform o) :=
  keeps_access hkind hcommand (by simp) (by simp)

theorem keeps_vSemVirt {semAdd : Word} : Keeps β S [] [] (vSemVirt S semAdd ID) := by
  unfold vSemVirt
  refine (keeps_pointer rfl rfl).bind fun value => (keeps_pointer rfl rfl).bind fun _ => ?_
  refine (keeps_pointer rfl rfl).bind fun value => keeps_when fun _ => ?_
  refine (keeps_perform rfl rfl).bind fun (theGivingID : Word) => ?_
  exact (keeps_when fun _ => meets_meIRL).bind fun _ => keeps_verhogen rfl

theorem keeps_pSemVirt {semAdd : Word} : Keeps β S [] [] (pSemVirt semAdd ID) := by
  unfold pSemVirt
  refine (keeps_pointer rfl rfl).bind fun value => (keeps_pointer rfl rfl).bind fun _ => ?_
  refine (keeps_pointer rfl rfl).bind fun value => keeps_when fun _ => ?_
  exact (keeps_perform rfl rfl).bind fun _ => keeps_passeren rfl

theorem keeps_delay {seconds : Word} : Keeps β S [] [] (delay S seconds ID) := by
  unfold delay
  refine (keeps_when fun _ => meets_meIRL).bind fun _ => ?_
  refine (keeps_perform rfl rfl).bind fun _ => (keeps_perform rfl rfl).bind fun time => ?_
  exact (keeps_perform rfl rfl).bind fun _ => keeps_passeren rfl

theorem keeps_vmSysHandler (hID : S.IsProcess ID) : Keeps β S [] [] (vmSysHandler S n ID) := by
  have hprinter := deviceMutex_ne hID PRINTDEV (by decide) (by decide)
  have hread := deviceMutex_ne hID TERMREADSEM (by decide) (by decide)
  have hwrite := deviceMutex_ne hID TERMSEMSTART (by decide) (by decide)
  have htransmitter : TERM0DEV + (ID - 1) + BitVec.ofNat 32 DEVPERINT = TERMSEMSTART + (ID - 1) := by
    rw [BitVec.add_assoc, BitVec.add_comm (ID - 1), ← BitVec.add_assoc]
    rfl
  unfold vmSysHandler
  refine (keeps_perform rfl rfl).bind fun (callNumber : Word) => ?_
  refine (keeps_perform rfl rfl).bind fun (a1 : Word) =>
    (keeps_perform rfl rfl).bind fun (a2 : Word) => ?_
  refine (keeps_perform rfl rfl).bind fun (a3 : Word) => ?_
  apply keeps_ite (keeps_deviceCall (keeps_readChars hread rfl))
  refine keeps_ite (keeps_deviceCall (keeps_writeChars hwrite fun _ => ?_)) ?_
  · exact htransmitter
  apply keeps_ite keeps_vSemVirt
  apply keeps_ite keeps_pSemVirt
  apply keeps_ite keeps_delay
  apply keeps_ite keeps_diskIO
  apply keeps_ite keeps_diskIO
  apply keeps_ite (keeps_deviceCall (keeps_writeChars hprinter fun _ => rfl))
  refine keeps_ite ?_ (keeps_ite meets_meIRL keeps_pure)
  exact (keeps_perform rfl rfl).bind fun _ => keeps_perform rfl rfl

/-- A TLB trap other than a missing page ends the process. -/
theorem keeps_vmMemHandler {oldState : State} (hbelow : ∀ b ∈ outer, lockRank b = 0)
    (hcause : ¬ MissingPage oldState → outer = []) :
    Keeps β S outer [] (vmMemHandler S oldState ID) := by
  unfold vmMemHandler
  refine Keeps.bind (keeps_when fun hother => ?_) fun _ => keeps_pager hbelow
  obtain rfl := hcause fun hmissing => hmissing.elim hother.1 hother.2
  exact meets_meIRL

/-- The boot code takes the mutex of its tape and below it that of the disk. -/
theorem keeps_loadBlock {currentBlock : Word} (hd : tapeNumber ID ≠ DISK0) :
    Keeps β S [] [.mutexArray (tapeNumber ID)] (loadBlock ID currentBlock) := by
  have hbelow : ∀ b ∈ [Sem.mutexArray (tapeNumber ID)] ++ [],
      lockRank b < lockRank (.mutexArray DISK0) := by
    simp [lockRank, hd]
  unfold loadBlock
  refine (keeps_waitio (c := tapeCommand ID) List.mem_cons_self).bind fun tapeStatus => ?_
  refine (meets_passeren rfl hbelow).bind ?_
  rintro _ _ rfl
  refine Prog.Meets.bind (keeps_waitio (c := seekCommand DISK0 currentBlock) List.mem_cons_self) ?_
  rintro _ _ rfl
  refine Prog.Meets.bind (keeps_when fun _ => (keeps_waitio ?_).bind fun _ => keeps_pure) ?_
  · exact List.mem_cons_self
  rintro _ _ rfl
  refine (meets_verhogen rfl).bind ?_
  rintro _ _ rfl
  exact keeps_pure

theorem keeps_loadTape {currentBlock : Word} (hd : tapeNumber ID ≠ DISK0) :
    Keeps β S [] [.mutexArray (tapeNumber ID)] (loadTape ID n currentBlock) := by
  induction n generalizing currentBlock with
  | zero => exact meets_spin
  | succ n ih =>
    unfold loadTape
    refine (keeps_loadBlock hd).bind fun tapeStatus => ?_
    refine (keeps_perform rfl rfl).bind fun (data1 : Word) => ?_
    exact keeps_ite (keeps_ite ih keeps_pure) keeps_pure

theorem keeps_uProcInit (hID : S.IsProcess ID) : Keeps β S [] [] (uProcInit n ID) := by
  have htape := deviceMutex_ne hID (BitVec.ofNat 32 ((TAPEINT - DEVNOSEM) * DEVPERINT))
    (by decide) (by decide)
  unfold uProcInit
  refine (meets_passeren rfl (by simp)).bind ?_
  rintro _ _ rfl
  refine Prog.Meets.bind (keeps_loadTape htape) ?_
  rintro _ _ rfl
  exact meets_verhogen rfl

theorem keeps_wakeLoop {theClock : Word} : Keeps β S [] [] (wakeLoop theClock n) := by
  induction n with
  | zero => exact meets_spin
  | succ n ih =>
    unfold wakeLoop
    refine (keeps_perform rfl rfl).bind fun (time : Word) => ?_
    refine (keeps_perform rfl rfl).bind fun (time' : Word) => ?_
    refine keeps_ite ?_ keeps_pure
    refine (keeps_perform rfl rfl).bind fun (ID : Word) => ?_
    refine (keeps_when fun _ => meets_panic).bind fun _ => ?_
    exact (keeps_verhogen rfl).bind fun _ => ih

theorem keeps_delayDaemon : Keeps β S [] [] (delayDaemon n) := by
  unfold delayDaemon
  exact (keeps_perform rfl rfl).bind fun _ => keeps_wakeLoop

end

end Kaya
