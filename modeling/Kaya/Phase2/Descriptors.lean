import Kaya.Phase2.Context
import Kaya.Phase2.Semaphores
import Kaya.Phase2.Subtree

open Links Exec

namespace Kaya

/-- Every active descriptor has waiting processes, and every other one is free. -/
structure Kernel.Described (k : Kernel) : Prop where
  active : ∀ i ∈ k.heap.activeList, k.heap.procQ (k.heap.s_procQ i) ≠ []
  descriptors : (k.heap.activeList ++ k.heap.freeSemds).Perm semdTable

/-- SYS7 is called without a current process, would block, and nobody waits for the
clock. -/
def Strays (M : Machine) (c : Config) (e : Entry) : Prop :=
  e.calls WAITCLOCK ∧ c.kernel.data.currentProcess = .null ∧
    (e.mem (clockSemaphore M) - 1).toInt < 0 ∧ c.kernel.heap.blockedOn (clockSemaphore M) = []

instance (M : Machine) (c : Config) (e : Entry) : Decidable (Strays M c e) :=
  inferInstanceAs (Decidable (_ ∧ _ ∧ _ ∧ _))

variable {M : Machine} {h : Heap} {q : Queues} {d : Data} {c c' : Config} {e : Entry} {a : Word}
  {p : Pid}

theorem Represents.described {k : Kernel} (hrep : Represents k.heap q) (hq : q.WF) :
    k.Described :=
  ⟨(hrep.descriptors hq).1, (hrep.descriptors hq).2⟩

/-- Blocking `NULL` on a semaphore in use is a trap that changes nothing. -/
theorem insertBlocked_null_found (hrep : Represents h q) (hq : q.WF) (hwait : q.waiting a ≠ []) :
    (insertBlocked a .null).run h = .error .trap h := by
  obtain ⟨p, hp⟩ := List.exists_mem_of_ne_nil _ hwait
  have ha : a < MAXINT := hq.waiting_lt hp
  obtain ⟨ids, fr, hasl⟩ := hrep.asl
  obtain ⟨c, w, behind, lo, hi, hcut, hsearch⟩ := searchASL_spec hasl hq.asl ha
  have hload := load_nodePtr hcut.after hasl.keys.2
  have hfound : nextKey hi = a := by
    by_contra hkey
    exact hwait (hcut.queue_nil hq.asl hkey)
  simp only [insertBlocked, EStateM.run_bind, hsearch, run_load_to, hcut.next, hload, hfound,
    if_true, run_store_null]

/-- SYS7 without a current process keeps the descriptors when somebody waits for the
clock. -/
theorem run_sysWaitForClock_found (hrep : Represents h q) (hq : q.WF)
    (hcur : d.currentProcess = .null) (hv : (d.mem (clockSemaphore M) - 1).toInt < 0)
    (hwait : q.waiting (clockSemaphore M) ≠ []) :
    (sysWaitForClock M sysOld).run ⟨h, d⟩ = .error .trap
      ⟨h, d.setMem (clockSemaphore M) (d.mem (clockSemaphore M) - 1)⟩ := by
  have hw : M.writable (clockSemaphore M) = true := M.sem_writable 48 (by decide)
  rw [run_sysWaitForClock rfl, bind_adjust (f := (· - 1)) hw, if_pos hv, bind_get]
  simp only [Data.setMem, hcur]
  exact bind_heap_error (insertBlocked_null_found hrep hq hwait)

/-- A call that derails keeps the descriptors unless it strays. -/
theorem Derails.described (hstep : (nucleus M).step c e c')
    (hrep : Represents c.kernel.heap q) (hn : Nucleus.Settled M ⟨q, c.kernel.data⟩)
    (hex : e.exception = .SYSCALL) (hvalid : validCall (e.enter c.kernel.data))
    (huser : ¬ userMode (e.enter c.kernel.data))
    (hderails : Derails q (e.enter c.kernel.data).advance (callNumber (e.enter c.kernel.data))
      c'.kernel) (hkeeps : ¬ Strays M c e) : c'.kernel.Described := by
  have hn' : Nucleus.Settled M ⟨q, (e.enter c.kernel.data).advance⟩ := hn.congr rfl rfl
  obtain ⟨n, hends⟩ := step_service hstep hex hvalid huser
  have hcalls := (Entry.calls_iff hex).mpr ⟨huser, rfl⟩
  generalize callNumber (e.enter c.kernel.data) = call at hderails hends hcalls
  cases hderails with
  | create _ hfree _ hrep' => exact hrep'.described (hn.wf.alloc hfree)
  | clock hcur _ _ _ _ _ =>
    by_cases hv : ((e.enter c.kernel.data).advance.mem (clockSemaphore M) - 1).toInt < 0
    · have hwait : q.waiting (clockSemaphore M) ≠ [] := by
        intro hnobody
        refine hkeeps ⟨hcalls, hcur, hv, ?_⟩
        rw [hrep.blockedOn_eq, hnobody]
      rw [← hends _ _ (Exec.run_bind_error (run_sysWaitForClock_found hrep hn.wf hcur hv hwait))]
      exact Represents.described (q := q) hrep hn.wf
    · have hw : M.writable (clockSemaphore M) = true := M.sem_writable 48 (by decide)
      have hback : Nucleus.Settled M ⟨q, (e.enter c.kernel.data).advance.setMem (clockSemaphore M)
          ((e.enter c.kernel.data).advance.mem (clockSemaphore M) - 1)⟩ := hn'.congr rfl rfl
      obtain ⟨h', hresumed, hrep'⟩ := ends_resume (M := M) (x := sysWaitForClock M sysOld)
        (d := (e.enter c.kernel.data).advance.setMem (clockSemaphore M)
          ((e.enter c.kernel.data).advance.mem (clockSemaphore M) - 1)) hrep hn.wf hback.current
        (by rw [run_sysWaitForClock rfl, bind_adjust (f := (· - 1)) hw, if_neg hv])
      rw [← hends _ _ hresumed]
      have hsettled := Nucleus.Valid.schedule hback.toValid
      exact Represents.described hrep' hsettled.wf

theorem Config.Live.described (hlive : c.Live M q) : c.kernel.Described :=
  hlive.represents.described hlive.settled.wf

theorem reachable_described
    (hc : ((nucleus M).restrict fun c e _ => ¬ Strays M c e).Reachable c) :
    (∃ q, c.Live M q) ∨ (c.Dead ∧ c.kernel.Described) := by
  refine hc.invariant (I := fun c => (∃ q, c.Live M q) ∨ (c.Dead ∧ c.kernel.Described))
    (fun c hinit => ?_) fun c e c' hinv hstep => ?_
  · obtain ⟨-, hrep, hbooted⟩ := nucleus_init hinit
    exact Or.inl ⟨_, hrep, hbooted.settled⟩
  · obtain ⟨hstep, hkeeps⟩ := hstep
    rcases hinv with ⟨q, hrep, hn⟩ | ⟨hdead, hdescribed⟩
    · rcases step_spec hstep hrep hn with ⟨n, next, hfollows⟩ | ⟨hex, hvalid, huser, hstop, hderails⟩
      · exact Or.inl ⟨_, hfollows.live hrep (hn.congr rfl rfl)⟩
      · exact Or.inr ⟨.of_derails hstop hderails,
          hderails.described hstep hrep hn hex hvalid huser hkeeps⟩
    · obtain ⟨hdead', hkernel⟩ := hdead.step hstep
      refine Or.inr ⟨hdead', ?_⟩
      rw [hkernel]
      exact ⟨hdescribed.active, hdescribed.descriptors⟩

/-- In every run without a stray SYS7 no descriptor is lost or kept without a queue,
and a call that blocks its caller finds one. -/
theorem described_of_run
    (hc : ((nucleus M).restrict fun c e _ => ¬ Strays M c e).Reachable c) :
    c.kernel.Described ∧ ∀ (e : Entry) (a : Word) (p : Pid), c.kernel.data.currentProcess = .to p →
      e.waitsOn M = some a → M.writable a = true → (e.mem a - 1).toInt < 0 →
      ∃ h', (insertBlocked a c.kernel.data.currentProcess).run c.kernel.heap = .ok false h' := by
  rcases reachable_described hc with ⟨q, hlive⟩ | ⟨hdead, hdescribed⟩
  · refine ⟨hlive.described, fun e a p hcur _ hw _ => ?_⟩
    have hp := hlive.settled.unplaced p hcur
    obtain ⟨h', hrun, -⟩ := insertBlocked_spec hlive.represents hlive.settled.wf hp
      (M.below _ (M.readable_of_writable _ hw))
    rw [hcur]
    exact ⟨h', hrun⟩
  · refine ⟨hdescribed, fun e a p hcur _ _ _ => ?_⟩
    rw [hdead.current] at hcur
    exact absurd hcur (by simp)

/-- A process waits for the clock, one on a semaphore in front of those of the nucleus, and one
has been woken from a semaphore behind them. -/
def descriptorCues : List Cue := [.call 1 0x20001000 0 0, .call 1 0x20001000 0 0,
  .call 1 0x20001000 0 0, .call 7 0 0 0, .call 4 0x20003000 0 0, .call 4 0x20001800 0 0,
  .call 3 0x20003000 0 0]

theorem described_of_run_small :
    (smallPlay descriptorCues).kernel.heap.asl =
      [(0x20001800, [17]), (clockSemaphore smallMachine, [19])] ∧
    (smallPlay descriptorCues).kernel.Described ∧
    ∃ h', (insertBlocked 0x20003000 (smallPlay descriptorCues).kernel.data.currentProcess).run
      (smallPlay descriptorCues).kernel.heap = .ok false h' := by
  have hcur : (smallPlay descriptorCues).kernel.data.currentProcess = .to 16 := by decide +kernel
  have hreach : ((nucleus smallMachine).restrict fun c e _ => ¬ Strays smallMachine c e).Reachable
      (smallPlay descriptorCues) :=
    smallScript_follows.restrict.reachable smallBoot_restrict (by decide +kernel)
  obtain ⟨hdescribed, hblocks⟩ := described_of_run hreach
  exact ⟨by decide +kernel, hdescribed,
    hblocks ((smallPlay descriptorCues).call 4 0x20003000 0 0) 0x20003000 16 hcur
      (by decide +kernel) (by decide +kernel) (by decide +kernel)⟩

/-- The first process makes a child and blocks; the child makes a grandchild. -/
def smallLine : Config :=
  ((smallBoot.calling 1 0x20001000 0 0).calling 4 0x20003000 0 0).calling 1 0x20001000 0 0

/-- The grandchild waits on the `int` behind the semaphores. -/
def smallLate : Config := smallLine.slice.calling 4 0x200020C4 0 0

/-- The child terminates, and goes on without a pcb. -/
def smallGhost : Config := smallLate.calling 2 0 0 0

theorem smallGhost_reachable : (nucleus smallMachine).Reachable smallGhost := by
  have hline : (nucleus smallMachine).Reachable smallLine :=
    ((smallBoot_reachable.step (step_calling 1 0x20001000 0 0 (by decide +kernel) (by decide)
      (by decide +kernel))).step (step_call 4 0x20003000 0 0 (by decide +kernel)
        (by decide +kernel) (by decide +kernel))).step (step_calling 1 0x20001000 0 0
          (by decide +kernel) (by decide) (by decide +kernel))
  have hslice := hline.step (step_slice (by decide +kernel) (by decide +kernel))
  have hlate : (nucleus smallMachine).Reachable smallLate := hslice.step
    (step_call 4 0x200020C4 0 0 (by decide +kernel) (by decide +kernel) (by decide +kernel))
  exact hlate.step (step_calling 2 0 0 0 (by decide +kernel) (by decide) (by decide +kernel))

/-- SYS7 leaves a descriptor active that nobody waits on. -/
theorem not_always_described : ¬ ∀ (M : Machine) (c : Config), (nucleus M).Reachable c →
    c.kernel.Described := by
  intro hall
  have hlast := smallGhost_reachable.step (step_calling 7 0 0 0 (by decide +kernel) (by decide)
    (by decide +kernel))
  have hempty : ∃ i ∈ (smallGhost.calling 7 0 0 0).kernel.heap.activeList,
      (smallGhost.calling 7 0 0 0).kernel.heap.procQ
        ((smallGhost.calling 7 0 0 0).kernel.heap.s_procQ i) = [] := by decide +kernel
  obtain ⟨i, hi, hnone⟩ := hempty
  exact (hall _ _ hlast).active i hi hnone

end Kaya
