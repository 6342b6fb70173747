import Kaya.Phase2.Nucleus
import Kaya.Phase2.Scheduler

open Links

namespace Kaya

variable {M : Machine} {h : Heap} {q : Queues} {d : Data} {p : Pid}

@[simp] theorem run_bill {w : Word} : (bill (.to p) w).run d =
    .ok () { d with pcb_time := Function.update d.pcb_time p (d.pcb_time p + w) } := rfl

theorem run_billCurrent (hcur : d.currentProcess ≠ .zero) :
    billCurrent.run ⟨h, d⟩ = .ok () ⟨h, d.charge⟩ := by
  unfold billCurrent
  rw [bind_get]
  rcases hcase : d.currentProcess with - | - | p
  · simp [hcase, Data.charge]
  · exact absurd hcase hcur
  · simp only [ne_eq, reduceCtorEq, not_false_eq_true, if_true]
    rw [bind_data run_STCK]
    simp only [bind_modifyData, bind_get, hcase]
    rw [run_data_ok run_bill]
    simp [Data.charge, hcase]

theorem run_noJob : noJob.run ⟨h, d⟩ = outcome d.verdict ⟨h, d.idle⟩ := by
  unfold noJob
  rw [bind_modifyData]
  by_cases hzero : d.processCount = 0
  · simp [Data.verdict, outcome, Data.idle, hzero]
  by_cases halive : 0 < d.processCount
  · by_cases hnone : d.softBlockCount = 0
    · simp [Data.verdict, outcome, Data.idle, hzero, halive, hnone]
    · by_cases hsome : 0 < d.softBlockCount
      · simp [Data.verdict, outcome, Data.idle, hzero, halive, hnone, hsome]
      · simp [Data.verdict, outcome, Data.idle, hzero, halive, hnone, hsome]
  · simp [Data.verdict, outcome, Data.idle, hzero, halive]

theorem run_startJob : (startJob M (.to p)).run ⟨h, d⟩ =
    .error (.LDST (.pcb_state (.to p)) (d.pcb_state p)) ⟨h, d.dispatch p⟩ := by
  unfold startJob
  rw [bind_modifyData, bind_data run_STCK, bind_modifyData,
    bind_data (x := setTIMER QUANTUM) rfl, run_data_error run_putALoadInMeDaddy_pcb]
  rfl

/-- The scheduler does what `Nucleus.schedule` says. -/
theorem scheduler_spec (hrep : Represents h q) (hq : q.WF) (hcur : d.currentProcess ≠ .zero) :
    ∃ h', (scheduler M).run ⟨h, d⟩ =
        outcome (Nucleus.schedule ⟨q, d⟩).1 ⟨h', (Nucleus.schedule ⟨q, d⟩).2.data⟩ ∧
      Represents h' (Nucleus.schedule ⟨q, d⟩).2.queues := by
  unfold scheduler
  rw [Exec.run_bind_ok (run_billCurrent hcur)]
  cases hready : q.ready with
  | nil =>
    refine ⟨h, ?_, by simpa [Nucleus.schedule, hready] using hrep⟩
    rw [bind_heap (removeReady_nil hrep hready), if_pos rfl, run_noJob, Data.verdict_charge]
    simp [Nucleus.schedule, hready]
  | cons p rest =>
    obtain ⟨h', hrun, hrep'⟩ := removeReady_cons hrep hq hready
    refine ⟨h', ?_, by simpa [Nucleus.schedule, hready] using hrep'⟩
    rw [bind_heap hrun, if_neg (by simp), run_startJob]
    simp [Nucleus.schedule, hready, outcome]

theorem scheduler_cons {rest : List Pid} (hrep : Represents h q) (hq : q.WF)
    (hcur : d.currentProcess ≠ .zero) (hready : q.ready = p :: rest) :
    ∃ h', (scheduler M).run ⟨h, d⟩ =
        .error (.LDST (.pcb_state (.to p)) (d.pcb_state p)) ⟨h', d.charge.dispatch p⟩ ∧
      Represents h' (q.unready p) := by
  have hspec := scheduler_spec (M := M) hrep hq hcur
  simpa [Nucleus.schedule, hready, outcome] using hspec

end Kaya
