import Kaya.Phase2.Act
import Kaya.Phase2.SchedulerSpec

open Links

namespace Kaya

variable {M : Machine} {h : Heap} {q : Queues} {d : Data} {p : Pid} {l : List Pid}

/-- A handler ends as `next` says, with the tables and data of `n`. -/
def Ends (r : EStateM.Result Stop Kernel Unit) (n : Nucleus) (next : Next) : Prop :=
  ∃ h', r = .error (next.finish n).1 ⟨h', (next.finish n).2.data⟩ ∧
    Represents h' (next.finish n).2.queues

/-- A handler ends in one of the ways of `act`. -/
def Completes (r : EStateM.Result Stop Kernel Unit) (act : Nucleus → Next → Prop) : Prop :=
  ∃ n next, act n next ∧ Ends r n next

/-- A handler ends in one of the ways of `act`, or its step bound is too low. -/
def Does (r : EStateM.Result Stop Kernel Unit) (act : Nucleus → Next → Prop) : Prop :=
  (∃ k, r = .error .spin k) ∨ ∃ n next, act n next ∧ Ends r n next

/-- A handler ends in one of the ways of `act` when its step bound is high enough. -/
def Terminates (r : Nat → EStateM.Result Stop Kernel Unit) (act : Nucleus → Next → Prop) : Prop :=
  ∃ need, (∀ n < need, ∃ k, r n = .error .spin k) ∧ ∀ n ≥ need, Completes (r n) act

theorem Ends.stop {r : EStateM.Result Stop Kernel Unit} {x : Stop} (hrep : Represents h q)
    (hr : r = .error x ⟨h, d⟩) : Ends r ⟨q, d⟩ (.stop x) :=
  ⟨h, hr, hrep⟩

theorem Completes.intro {r : EStateM.Result Stop Kernel Unit} {act : Nucleus → Next → Prop}
    {n : Nucleus} {next : Next} (hact : act n next) (hends : Ends r n next) : Completes r act :=
  ⟨n, next, hact, hends⟩

theorem Completes.stop {r : EStateM.Result Stop Kernel Unit} {act : Nucleus → Next → Prop}
    {x : Stop} (hact : act ⟨q, d⟩ (.stop x)) (hrep : Represents h q) (hr : r = .error x ⟨h, d⟩) :
    Completes r act :=
  .intro hact (.stop hrep hr)

theorem Completes.mono {r : EStateM.Result Stop Kernel Unit} {act act' : Nucleus → Next → Prop}
    (hr : Completes r act) (hle : ∀ n next, act n next → act' n next) : Completes r act' := by
  obtain ⟨n, next, hact, hends⟩ := hr
  exact ⟨n, next, hle n next hact, hends⟩

theorem Completes.bind {act : Nucleus → Next → Prop} {x : KernelM Unit} {f : Unit → KernelM Unit}
    {k : Kernel} (hx : Completes (x.run k) act) : Completes ((x >>= f).run k) act := by
  obtain ⟨n, next, hact, h', hrun, hrep⟩ := hx
  exact .intro hact ⟨h', Exec.run_bind_error hrun, hrep⟩

/-- A handler without a loop needs no step bound. -/
theorem Terminates.of_completes {r : Nat → EStateM.Result Stop Kernel Unit}
    {act : Nucleus → Next → Prop} (hr : ∀ n, Completes (r n) act) : Terminates r act :=
  ⟨0, fun _ hn => absurd hn (Nat.not_lt_zero _), fun n _ => hr n⟩

theorem Terminates.does {r : Nat → EStateM.Result Stop Kernel Unit} {act : Nucleus → Next → Prop}
    (hr : Terminates r act) (n : Nat) : Does (r n) act := by
  obtain ⟨need, hspin, hdone⟩ := hr
  by_cases hn : n < need
  · exact .inl (hspin n hn)
  · exact .inr (hdone n (by omega))

theorem Terminates.congr {r r' : Nat → EStateM.Result Stop Kernel Unit}
    {act : Nucleus → Next → Prop} (hr : Terminates r act) (hsame : ∀ n, r' n = r n) :
    Terminates r' act := by
  rwa [show r' = r from funext hsame]

theorem Terminates.mono {r : Nat → EStateM.Result Stop Kernel Unit}
    {act act' : Nucleus → Next → Prop} (hr : Terminates r act)
    (hle : ∀ n next, act n next → act' n next) : Terminates r act' := by
  obtain ⟨need, hspin, hdone⟩ := hr
  exact ⟨need, hspin, fun n hn => (hdone n hn).mono hle⟩

theorem Terminates.bind {act : Nucleus → Next → Prop} {x f : Nat → KernelM Unit}
    {k : Kernel} (hx : Terminates (fun n => (x n).run k) act) :
    Terminates (fun n => (x n >>= fun _ => f n).run k) act := by
  obtain ⟨need, hspin, hdone⟩ := hx
  refine ⟨need, fun n hn => ?_, fun n hn => (hdone n hn).bind⟩
  obtain ⟨k', hk'⟩ := hspin n hn
  exact ⟨k', Exec.run_bind_error hk'⟩

/-- The scheduler returns with no current process. -/
theorem Nucleus.schedule_none {n : Nucleus} (hsched : n.schedule.1 = none) :
    n.schedule.2.data.currentProcess = .null := by
  unfold Nucleus.schedule at hsched ⊢
  cases hready : n.queues.ready with
  | nil => rfl
  | cons p rest => simp [hready] at hsched

/-- Calling the scheduler: what comes after the call matters when it returns,
which it does with no current process. -/
theorem ends_scheduler {f : Unit → KernelM Unit} {resume : Data → Stop} (hrep : Represents h q)
    (hq : q.WF) (hcur : d.currentProcess ≠ .zero)
    (hresume : ∀ h' d', d'.currentProcess = .null →
      (f ()).run ⟨h', d'⟩ = .error (resume d') ⟨h', d'⟩) :
    Ends ((scheduler M >>= f).run ⟨h, d⟩) ⟨q, d⟩ (.sched resume) := by
  obtain ⟨h', hrun, hrep'⟩ := scheduler_spec (M := M) hrep hq hcur
  refine ⟨h', ?_, hrep'⟩
  simp only [Next.finish]
  rcases hsched : (Nucleus.schedule ⟨q, d⟩).1 with - | x
  · rw [hsched] at hrun
    rw [Exec.run_bind_ok hrun, hresume _ _ (Nucleus.schedule_none hsched)]
    rfl
  · rw [hsched] at hrun
    rw [Exec.run_bind_error hrun]
    rfl

/-- SYS2 and the deaths that end like it: the current process and its
descendants are killed. -/
theorem terminates_kill {act : Nucleus → Next → Prop} {f : Nat → Unit → KernelM Unit}
    (resume : Data → Stop) (hrep : Represents h q) (hq : q.WF) (hcur : d.currentProcess = .to p)
    (hp : p ∉ q.free) (hmem : ∀ e ∈ q.asl, M.writable e.1) (hl : q.children.Postorder p l)
    (hresume : ∀ n h' d', d'.currentProcess = .null →
      (f n ()).run ⟨h', d'⟩ = .error (resume d') ⟨h', d'⟩)
    (hact : act ⟨q.erase l, d.killed M q l⟩ (.sched resume)) :
    Terminates (fun n => (sysSendToNorthKorea M n >>= f n).run ⟨h, d⟩) act := by
  obtain ⟨need, hkill⟩ := executeOrderSixtySix_spec (M := M) hl
  obtain ⟨hspin, h', hdone, hrep', hq'⟩ := hkill (d := d) hrep hq hp (Or.inl hcur) hmem
  have hunfold : ∀ n, (sysSendToNorthKorea M n >>= f n).run ⟨h, d⟩ =
      (executeOrderSixtySix M n (.to p) >>= fun _ => scheduler M >>= f n).run ⟨h, d⟩ := by
    intro n
    unfold sysSendToNorthKorea
    simp only [bind_assoc]
    rw [bind_get, show (Kernel.data ⟨h, d⟩).currentProcess = .to p from hcur]
  refine .congr ⟨need, fun n hn => ?_, fun n hn => ?_⟩ hunfold
  · obtain ⟨k, hk⟩ := hspin n hn
    exact ⟨k, Exec.run_bind_error hk⟩
  · rw [Exec.run_bind_ok (hdone n hn)]
    refine .intro hact (ends_scheduler hrep' hq' ?_ (hresume n))
    simp [Data.killed, hcur]

/-- Without a current process SYS2 runs into its `NULL`. -/
theorem terminates_kill_nobody {act : Nucleus → Next → Prop} {f : Nat → Unit → KernelM Unit}
    (hrep : Represents h q) (hcur : d.currentProcess = .null) (hact : act ⟨q, d⟩ (.stop .trap)) :
    Terminates (fun n => (sysSendToNorthKorea M n >>= f n).run ⟨h, d⟩) act := by
  have hunfold : ∀ n, (sysSendToNorthKorea M n >>= f n).run ⟨h, d⟩ =
      (executeOrderSixtySix M n .null >>= fun _ => scheduler M >>= f n).run ⟨h, d⟩ := by
    intro n
    unfold sysSendToNorthKorea
    simp only [bind_assoc]
    rw [bind_get, show (Kernel.data ⟨h, d⟩).currentProcess = .null from hcur]
  refine .congr ⟨1, fun n hn => ?_, fun n hn => .stop hact hrep ?_⟩ hunfold
  · obtain rfl := Nat.lt_one_iff.mp hn
    exact ⟨⟨h, d⟩, Exec.run_bind_error rfl⟩
  · obtain ⟨n, rfl⟩ := Nat.exists_eq_succ_of_ne_zero (Nat.one_le_iff_ne_zero.mp hn)
    have hempty : (emptyChild .null).run h = .error .trap h := rfl
    refine Exec.run_bind_error ?_
    unfold executeOrderSixtySix
    rw [bind_heap_error hempty]

end Kaya
