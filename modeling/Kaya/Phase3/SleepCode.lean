import Kaya.Phase3.Calls
import Kaya.Phase3.Processes
import Kaya.Queues.Sleepers

open Exec Prog Sleepers

namespace Kaya

open Code

/-- How the code of phase 3 treats the sleepers if nobody sleeps with DELAY: a process
goes to sleep at once when it is registered, and a process that has been taken out of
the register is woken at once. `a0` and `a1` are in the old area of the process. -/
def sleepContract (S : Setup) (ID a0 a1 : Word) : Contract Op Op.Answer (Phase Word) where
  pre
    | .registered, o => o = .passeren (.uProc_semAdd ID)
    | .waking k, o => o = .verhogen (.uProc_semAdd k)
    | .awake, .vInsertBlocked a p => a0 = PSEMVIRT ∧ a = a1 ∧ p = ID ∧ S.IsProcess ID
    | .awake, .vRemoveBlocked _ => True
    | .awake, .headDelayTime => True
    | .awake, o => o.isAwake = true
  post
    | .awake, .getOld p f, r, g =>
      (p = ID → (f = .s_reg s_a0 → r = a0) ∧ (f = .s_reg s_a1 → r = a1)) ∧ g = .awake
    | .awake, .headDelayTime, r, g => r = FAILURE ∧ g = .awake
    | .awake, .vInsertBlocked _ _, _, g => g = .registered
    | .awake, .vRemoveBlocked _, r, g => r ≠ FAILURE ∧ g = .waking r
    | _, _, _, g => g = .awake

/-- The rest of an activation treats the sleepers so. -/
abbrev Tends (S : Setup) (ID a0 a1 : Word) (g : Phase Word) (p : Code Unit) : Prop :=
  p.Meets (sleepContract S ID a0 a1) g fun g' _ => g' = .awake

variable {S : Setup} {ID a0 a1 semAdd : Word} {α : Type} {p : Code Unit} {n : Nat}

/-- Code that does not concern the sleepers. -/
abbrev Wakeful (p : Code α) : Prop := p.Always fun o => o.isAwake = true

theorem wakeful_perform {o : Op} (ho : o.isAwake = true) : Wakeful (perform o) := always_perform ho

/-- Operations that do not concern the sleepers. -/
theorem awake_post {o : Op} (ho : o.isAwake = true) : (sleepContract S ID a0 a1).pre .awake o ∧
    ∀ r g, (sleepContract S ID a0 a1).post .awake o r g → g = .awake := by
  cases o with
  | vInsertBlocked _ _ => exact absurd ho nofun
  | vRemoveBlocked _ => exact absurd ho nofun
  | headDelayTime => exact absurd ho nofun
  | getOld _ _ => exact ⟨ho, fun _ _ h => h.2⟩
  | _ => exact ⟨ho, fun _ _ h => h⟩

theorem Wakeful.meets {p : Code α} (h : Wakeful p) :
    p.Meets (sleepContract S ID a0 a1) .awake fun g _ => g = .awake :=
  Always.meets h fun _ => awake_post

theorem tends_ite {c : Prop} [Decidable c] {q : Code Unit} (hp : c → Tends S ID a0 a1 .awake p)
    (hq : ¬ c → Tends S ID a0 a1 .awake q) : Tends S ID a0 a1 .awake (if c then p else q) := by
  split
  · exact hp ‹c›
  · exact hq ‹¬ c›

theorem tends_when {c : Prop} [Decidable c] (hp : c → Tends S ID a0 a1 .awake p) :
    Tends S ID a0 a1 .awake (Prog.when c p) :=
  tends_ite hp fun _ => rfl

/-- The next operation does not concern the sleepers. -/
theorem tends_call {o : Op} {k : o.Answer → Code Unit} (ho : o.isAwake = true)
    (hk : ∀ r, Tends S ID a0 a1 .awake (k r)) : Tends S ID a0 a1 .awake (.call o k) := by
  refine ⟨(awake_post ho).1, fun r g hpost => ?_⟩
  obtain rfl := (awake_post ho).2 r g hpost
  exact hk r

/-- A process that ends does not return. -/
theorem meets_meIRL_awake {Q : Phase Word → Unit → Prop} :
    (meIRL S ID).Meets (sleepContract S ID a0 a1) .awake Q := by
  have hloop : Wakeful ((List.range S.SWAPSIZE).forM (releaseFrame ID)) := by
    refine always_forM fun index => ?_
    unfold releaseFrame
    refine (wakeful_perform rfl).bind fun (frame : Swap) => always_when fun _ => ?_
    refine (wakeful_perform rfl).bind fun (entry : Word) => ?_
    exact (wakeful_perform rfl).bind fun _ => wakeful_perform rfl
  unfold meIRL
  refine Meets.bind (Wakeful.meets (wakeful_perform rfl)) ?_
  rintro _ _ rfl
  refine Meets.bind (Wakeful.meets hloop) ?_
  rintro _ _ rfl
  refine Meets.bind (Wakeful.meets (wakeful_perform rfl)) ?_
  rintro _ _ rfl
  refine Meets.bind (Wakeful.meets (wakeful_perform rfl)) ?_
  rintro _ _ rfl
  exact ⟨rfl, fun r => r.elim⟩

/-- A process that is found in the register is woken. -/
theorem tends_vSemVirt : Tends S ID a0 a1 .awake (vSemVirt S semAdd ID) := by
  unfold vSemVirt
  refine tends_call rfl fun value => tends_call rfl fun _ => tends_call rfl fun value => ?_
  refine tends_when fun _ => ⟨trivial, ?_⟩
  rintro (theGivingID : Word) g ⟨hgiving, rfl⟩
  change Tends S ID a0 a1 (.waking theGivingID) (do
    Prog.when (theGivingID = FAILURE) (meIRL S ID)
    verhogen (.uProc_semAdd theGivingID))
  refine Meets.bind (Q := fun g _ => g = .waking theGivingID) ?_ ?_
  · unfold Prog.when
    split
    · exact absurd ‹_› hgiving
    · rfl
  · rintro _ _ rfl
    exact ⟨rfl, fun _ _ hpost => hpost⟩

/-- The caller is registered, and sleeps. -/
theorem tends_pSemVirt (hcall : a0 = PSEMVIRT) (hID : S.IsProcess ID) :
    Tends S ID a0 a1 .awake (pSemVirt a1 ID) := by
  unfold pSemVirt
  refine tends_call rfl fun value => tends_call rfl fun _ => tends_call rfl fun value => ?_
  refine tends_when fun _ => ⟨⟨hcall, rfl, rfl, hID⟩, ?_⟩
  rintro _ g rfl
  exact ⟨rfl, fun _ _ hpost => hpost⟩

/-- A delay by less than nothing ends the process. -/
theorem tends_delay {seconds : Word} (hneg : (seconds * 1000000).toInt < 0) :
    Tends S ID a0 a1 .awake (delay S seconds ID) := by
  unfold delay
  refine Meets.bind (Q := fun _ _ => False) ?_ fun _ _ hfalse => hfalse.elim
  rw [Prog.when, if_pos hneg]
  exact meets_meIRL_awake

/-- A loop of a device. -/
theorem tends_deviceCall {p : Code α} {d : Word} {result : α → Word}
    (hp : Wakeful p) : Tends S ID a0 a1 .awake (do
      passeren (.mutexArray d)
      let i ← p
      setOld ID (.s_reg s_v0) (result i)
      verhogen (.mutexArray d)) :=
  Wakeful.meets (always_deviceCall (fun _ _ h => h) ⟨rfl, rfl⟩ hp)

/-- A system call, unless it is a DELAY that makes its caller sleep. -/
theorem tends_vmSysHandler (hID : S.IsProcess ID) (hdelay : a0 = DELAY → (a1 * 1000000).toInt < 0) :
    Tends S ID a0 a1 .awake (vmSysHandler S n ID) := by
  have hawake : ∀ o : Op, o.isQuiet = true → o.isAwake = true → o.isAwake = true := fun _ _ h => h
  unfold vmSysHandler
  refine ⟨rfl, ?_⟩
  rintro (callNumber : Word) g ⟨hcall, rfl⟩
  obtain rfl : callNumber = a0 := (hcall rfl).1 rfl
  refine ⟨rfl, ?_⟩
  rintro (arg : Word) g ⟨harg, rfl⟩
  obtain rfl : arg = a1 := (harg rfl).2 rfl
  refine tends_call rfl fun (a2 : Word) => tends_call rfl fun (a3 : Word) => ?_
  refine tends_ite (fun _ => ?_) fun _ => tends_ite (fun _ => ?_) fun _ => ?_
  · exact tends_deviceCall (always_readChars hawake rfl fun _ _ _ => rfl)
  · exact tends_deviceCall (always_writeChars hawake (fun _ => rfl) fun _ _ => rfl)
  refine tends_ite (fun _ => tends_vSemVirt) fun _ => ?_
  refine tends_ite (fun hcall => tends_pSemVirt hcall hID) fun _ => ?_
  refine tends_ite (fun hcall => tends_delay (hdelay hcall)) fun _ => ?_
  refine tends_ite (fun _ => Wakeful.meets <| always_diskIO hawake) fun _ => ?_
  refine tends_ite (fun _ => Wakeful.meets <| always_diskIO hawake) fun _ => ?_
  refine tends_ite (fun _ => ?_) fun _ => tends_ite (fun _ => ?_) fun _ => ?_
  · exact tends_deviceCall (always_writeChars hawake (fun _ => rfl) fun _ _ => rfl)
  · exact tends_call rfl fun (time : Word) => tends_call (by simp [Op.isAwake]) fun _ => rfl
  · exact tends_ite (fun _ => meets_meIRL_awake) fun _ => rfl

theorem always_readWriteBacking {cylinder sector head isRead address : Word} :
    Wakeful (readWriteBacking cylinder sector head isRead address) := by
  unfold readWriteBacking
  refine (always_when fun _ => always_panic fun _ _ h => h).bind fun _ => ?_
  refine (wakeful_perform rfl).bind fun _ => (wakeful_perform rfl).bind fun (diskStatus : Word) => ?_
  refine Always.bind (always_when fun _ => ?_) fun _ => wakeful_perform rfl
  exact ⟨rfl, fun _ => trivial⟩

theorem tends_vmMemHandler {oldState : State} :
    Tends S ID a0 a1 .awake (vmMemHandler S oldState ID) := by
  unfold vmMemHandler
  refine Wakeful.meets ?_
  refine (always_when fun _ => always_meIRL fun _ _ h => h).bind fun _ => ?_
  unfold pager spinTheBottle evict validate
  refine (wakeful_perform rfl).bind fun _ => ?_
  refine Always.bind ((wakeful_perform rfl).bind fun _ => ?_) fun newFrame => ?_
  · exact (wakeful_perform rfl).bind fun _ => trivial
  refine Always.bind ((wakeful_perform rfl).bind fun (frame : Swap) => ?_) fun _ => ?_
  · refine always_when fun _ => ?_
    refine (wakeful_perform rfl).bind fun (entry : Word) => (wakeful_perform rfl).bind fun _ => ?_
    exact always_readWriteBacking
  refine always_readWriteBacking.bind fun _ => Always.bind ?_ fun _ => wakeful_perform rfl
  exact always_ite (fun _ => (wakeful_perform rfl).bind fun _ => wakeful_perform rfl)
    fun _ => (wakeful_perform rfl).bind fun _ => wakeful_perform rfl

theorem tends_uProcInit : Tends S ID a0 a1 .awake (uProcInit n ID) := by
  have hload : ∀ n currentBlock, Wakeful (loadTape ID n currentBlock) := by
    intro n
    induction n with
    | zero => exact fun _ => always_spin fun _ _ h => h
    | succ n ih =>
      intro currentBlock
      unfold loadTape loadBlock
      refine Always.bind ?_ fun tapeStatus => (wakeful_perform rfl).bind fun (data1 : Word) => ?_
      · refine (wakeful_perform rfl).bind fun tapeStatus => (wakeful_perform rfl).bind fun _ => ?_
        refine (wakeful_perform rfl).bind fun (diskStatus : Word) => ?_
        refine Always.bind (always_when fun _ => ⟨rfl, fun _ => trivial⟩) fun _ => ?_
        exact ⟨rfl, fun _ => trivial⟩
      · exact always_ite (fun _ => always_ite (fun _ => ih _) fun _ => trivial) fun _ => trivial
  unfold uProcInit
  refine Wakeful.meets ((wakeful_perform rfl).bind fun _ => (hload n 0).bind fun _ => ?_)
  exact wakeful_perform rfl

/-- The daemon finds nobody whose time has come. -/
theorem tends_delayDaemon : Tends S ID a0 a1 .awake (delayDaemon n) := by
  unfold delayDaemon
  refine tends_call rfl fun (theClock : Word) => ?_
  cases n with
  | zero => exact Wakeful.meets (always_spin fun _ _ h => h)
  | succ n =>
    unfold wakeLoop
    refine ⟨trivial, ?_⟩
    rintro (time : Word) g ⟨-, rfl⟩
    refine ⟨trivial, ?_⟩
    rintro (time' : Word) g ⟨hnone, rfl⟩
    exact tends_ite (fun hlate => absurd hnone hlate.2) fun _ => rfl

end Kaya
