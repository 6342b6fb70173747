import Kaya.Phase1.Init
import Kaya.Phase2.Runs

open Links

namespace Kaya

variable {M : Machine} {h : Heap} {q : Queues} {d : Data} {p : Pid}

/-- Memory with some semaphores of the nucleus cleared. -/
def clear (M : Machine) (l : List Nat) (mem : Word → Word) : Word → Word :=
  l.foldl (fun mem i => Function.update mem (M.semAdd (BitVec.ofNat 32 i)) 0) mem

theorem run_clearSem : (clearSem M).run d =
    .ok () { d with mem := clear M (List.range TOTALSEM) d.mem } := by
  have hstep : ∀ l : List Nat, (∀ i ∈ l, i < TOTALSEM) → ∀ m,
      (l.forM fun i => storeWord M (M.semAdd (BitVec.ofNat 32 i)) 0).run { d with mem := m } =
        .ok () { d with mem := clear M l m } := by
    intro l
    induction l with
    | nil => exact fun _ _ => rfl
    | cons i l ih =>
      intro hl m
      have hw : M.writable (M.semAdd (BitVec.ofNat 32 i)) = true := by
        rw [Machine.semAdd_ofNat]
        exact M.sem_writable i (hl i List.mem_cons_self)
      exact (Exec.run_bind_ok (run_storeWord_ok hw)).trans
        (ih (fun j hj => hl j (List.mem_cons_of_mem _ hj)) _)
  exact hstep _ (fun i hi => List.mem_range.mp hi) d.mem

theorem clear_semAdd {l : List Nat} {mem : Word → Word} {i : Nat} (hi : i ∈ l) :
    clear M l mem (M.semAdd (BitVec.ofNat 32 i)) = 0 := by
  have hkeep : ∀ l : List Nat, ∀ mem : Word → Word, ∀ a, mem a = 0 → clear M l mem a = 0 := by
    intro l
    induction l with
    | nil => exact fun _ _ h => h
    | cons j l ih =>
      intro mem a ha
      refine ih _ a ?_
      simp only [Function.update_apply]
      split
      · rfl
      · exact ha
  induction l generalizing mem with
  | nil => simp at hi
  | cons j l ih =>
    rcases List.mem_cons.mp hi with rfl | hi
    · exact hkeep l _ _ (Function.update_self _ _ _)
    · exact ih hi

/-- The state `main` gives to the first process. -/
def firstState (M : Machine) : State :=
  ((((State.zero.set (.s_reg s_sp) (M.RAMTOP - BitVec.ofNat 32 PAGESIZE)).set .s_pc M.test).set
    (.s_reg s_t9) M.test).set .s_status (ALLOFF ||| IEON ||| IMON ||| LTON))

/-- The data when the first process runs. -/
structure Booted (M : Machine) (d : Data) : Prop where
  current : d.currentProcess = .to firstPid
  processCount : d.processCount = 1
  softBlockCount : d.softBlockCount = 0
  pcb_state : d.pcb_state firstPid = firstState M
  mem : ∀ i < TOTALSEM, d.mem (M.semAdd (BitVec.ofNat 32 i)) = 0
  TODStarted : d.TODStarted = d.clock 0
  readings : d.readings = 1

theorem main_spec (M : Machine) (mem : Word → Word) (clock : Nat → Word) :
    ∃ h d, (main M).run (Kernel.bss M mem clock) =
        .error (.LDST (.pcb_state (.to firstPid)) (firstState M)) ⟨h, d⟩ ∧
      Represents h Queues.booted ∧ Booted M d ∧ d.clock = clock := by
  unfold main
  obtain ⟨h1, h2, hrun1, hrun2, hrep2⟩ := represents_initial
    (h := { Heap.bss M.rom with readyQueue := .null }) rfl rfl rfl rfl M.rom_ne
  obtain ⟨h3, hrun3, hrep3⟩ := allocPcb_cons hrep2 Queues.initial_wf Queues.initial_free
  obtain ⟨h4, hrun4, hrep4⟩ := insertReady_spec hrep3
    (Queues.initial_wf.unplaced_alloc Queues.initial_free)
    (Queues.initial_wf.alloc Queues.initial_free)
  have hstart : ∀ {d : Data}, d.currentProcess = .null → d.processCount = 1 →
      d.softBlockCount = 0 → d.pcb_state firstPid = firstState M →
      (∀ i < TOTALSEM, d.mem (M.semAdd (BitVec.ofNat 32 i)) = 0) → d.readings = 0 →
      d.clock = clock →
      ∃ h d', (scheduler M).run ⟨h4, d⟩ =
          .error (.LDST (.pcb_state (.to firstPid)) (firstState M)) ⟨h, d'⟩ ∧
        Represents h Queues.booted ∧ Booted M d' ∧ d'.clock = clock := by
    intro d hcur hcount hsoft hstate hmem hreadings hclock
    obtain ⟨h5, hrun5, hrep5⟩ := scheduler_cons (M := M) (d := d) hrep4
      ((Queues.initial_wf.alloc Queues.initial_free).makeReady
        (Queues.initial_wf.unplaced_alloc Queues.initial_free))
      (by simp [hcur]) (show ((Queues.initial.alloc firstPid).makeReady firstPid).ready = [firstPid]
        from rfl)
    have hcharge : d.charge = d := by simp [Data.charge, hcur]
    rw [hstate, hcharge] at hrun5
    refine ⟨h5, _, hrun5, ?_, ⟨rfl, hcount, hsoft, hstate, hmem, ?_, ?_⟩, hclock⟩
    rotate_left
    · simp [Data.dispatch, hreadings]
    · simp [Data.dispatch, hreadings]
    have hbooted : ((Queues.initial.alloc firstPid).makeReady firstPid).unready firstPid =
        Queues.booted := by
      simp [Queues.makeReady, Queues.unready, Queues.alloc, Queues.initial, Queues.booted]
    rwa [hbooted] at hrep5
  unfold Kernel.bss
  rw [bind_heap (show (modify fun h => { h with readyQueue := mkEmptyProcQ } : HeapM Unit).run
      (Heap.bss M.rom) = .ok () { Heap.bss M.rom with readyQueue := .null } from rfl),
    bind_modifyData, bind_data run_clearSem, bind_heap hrun1, bind_heap hrun2, bind_heap hrun3,
    bind_modifyData, bind_data run_setField_pcb, bind_data run_setField_pcb,
    bind_data run_setField_pcb, bind_data run_setField_pcb, bind_modifyData, bind_heap hrun4,
    bind_modifyData, bind_data run_LDIT]
  refine hstart rfl rfl rfl ?_ ?_ rfl rfl
  · simp [firstState]
  · exact fun i hi => clear_semAdd (List.mem_range.mpr hi)

/-- Every run of the nucleus starts with the first process being dispatched. -/
theorem nucleus_init {c : Config} (hinit : (nucleus M).init c) :
    c.stop = .LDST (.pcb_state (.to firstPid)) (firstState M) ∧
      Represents c.kernel.heap Queues.booted ∧ Booted M c.kernel.data := by
  obtain ⟨mem, clock, hrun⟩ := hinit
  obtain ⟨h, d, hmain, hrep, hbooted, -⟩ := main_spec M mem clock
  rw [hmain] at hrun
  simp only [EStateM.Result.error.injEq] at hrun
  obtain ⟨hstop, hkernel⟩ := hrun
  rw [← hstop, ← hkernel]
  exact ⟨rfl, hrep, hbooted⟩

end Kaya
