import Kaya.Phase1.View
import Kaya.Phase2.Script

open Links Exec

namespace Kaya

variable {M : Machine} {h : Heap} {q : Queues} {d : Data} {c : Config} {e : Entry} {a : Word}

/-- Everybody who waited on `a` is ready, in the same order, and nobody else has moved. -/
structure Nucleus.Woken (a : Word) (n n' : Nucleus) : Prop where
  ready : n'.queues.ready = n.queues.ready ++ n.queues.waiting a
  waiting : n'.queues.waiting a = []
  others : ∀ b, b ≠ a → n'.queues.waiting b = n.queues.waiting b
  semAdd : ∀ p ∈ n.queues.waiting a, n'.queues.semAdd p = NULL
  kept : ∀ p ∉ n.queues.waiting a, n'.queues.semAdd p = n.queues.semAdd p
  softBlockCount : n'.data.softBlockCount = n.data.softBlockCount - (n.queues.waiting a).length

theorem Nucleus.woken_wakeAll (hn : Nucleus.Settled M ⟨q, d⟩) :
    Nucleus.Woken a ⟨q, d⟩ (Nucleus.wakeAll a ⟨q, d⟩) := by
  generalize hl : q.waiting a = l
  induction l generalizing q d with
  | nil =>
    rw [Nucleus.wakeAll_nil hl]
    refine ⟨?_, hl, fun _ _ => rfl, ?_, fun _ _ => rfl, ?_⟩ <;> simp [hl]
  | cons x rest ih =>
    rw [Nucleus.wakeAll_cons hn.wf hl]
    have hx : x ∈ q.waiting a := by simp [hl]
    have hrest := Queues.waiting_wake_head hn.wf hl
    have hn' : Nucleus.Settled M ⟨q.wake x, d.wake x⟩ :=
      hn.wake (Queues.mem_values_of_mem_waiting hx) rfl rfl
    have hwoken := ih hn' hrest
    have hxrest : x ∉ rest := (List.nodup_cons.mp (hl ▸ hn.wf.waiting_nodup a)).1
    refine ⟨?_, hwoken.waiting, fun b hb => ?_, fun p hp => ?_, fun p hp => ?_, ?_⟩
    · rw [hwoken.ready, hrest, hl]
      simp [Queues.wake, Queues.makeReady, Queues.unblock]
    · rw [hwoken.others b hb]
      exact Queues.waiting_wake_of_ne hn.wf hx hb
    · rw [hl] at hp
      rcases List.mem_cons.mp hp with rfl | hp
      · rw [hwoken.kept p (by simpa [hrest] using hxrest)]
        simp [Queues.wake, Queues.makeReady, Queues.unblock]
      · exact hwoken.semAdd p (by simpa [hrest] using hp)
    · rw [hl, List.mem_cons, not_or] at hp
      rw [hwoken.kept p (by simpa [hrest] using hp.2)]
      simp [Queues.wake, Queues.makeReady, Queues.unblock, hp.1]
    · rw [hwoken.softBlockCount, hrest, hl, List.length_cons]
      simp only [Data.wake]
      omega

/-- The kernel when the interrupt handler looks for the line. -/
def Config.taken (c : Config) (e : Entry) : Kernel :=
  ⟨c.kernel.heap, (e.enter c.kernel.data).stopClock⟩

/-- What a clock interrupt is for, between the kernels before and after it. -/
structure Kernel.ClockServed (M : Machine) (k k' : Kernel) : Prop where
  ready : k'.heap.readyList = k.heap.readyList ++ k.heap.blockedOn (clockSemaphore M)
  waiting : k'.heap.blockedOn (clockSemaphore M) = []
  others : ∀ a, a ≠ clockSemaphore M → k'.heap.blockedOn a = k.heap.blockedOn a
  semAdd : ∀ p ∈ k.heap.blockedOn (clockSemaphore M), k'.heap.pcb_semAdd p = NULL
  kept : ∀ p ∉ k.heap.blockedOn (clockSemaphore M), k'.heap.pcb_semAdd p = k.heap.pcb_semAdd p
  softBlockCount : k'.data.softBlockCount =
    k.data.softBlockCount - (k.heap.blockedOn (clockSemaphore M)).length
  cleared : k'.data.mem (clockSemaphore M) = 0

/-- The handler gets through the branch of the interval timer, which does its
work, and goes on to `finish`. -/
def ServesClock (M : Machine) (c : Config) (e : Entry) : Prop :=
  ∃ n k, (clockInterrupt M n).run (c.taken e) = .ok () k ∧
    (ioTrapHandler M n).run ⟨c.kernel.heap, e.enter c.kernel.data⟩ =
      (do finish M; throw .undefined : KernelM Unit).run k ∧
    (c.taken e).ClockServed M k

/-- The branch of the interval timer in the handler. -/
theorem run_ioTrapHandler_clock {n : Nat} (hline : pendingLine (d.old .INTPOLDAREA).s_cause = some 2) :
    (ioTrapHandler M n).run ⟨h, d⟩ =
      (do clockInterrupt M n; finish M; throw .undefined : KernelM Unit).run ⟨h, d.stopClock⟩ := by
  obtain ⟨h0, h1, h2⟩ := pendingLine_clock hline
  rw [run_ioTrapHandler rfl, if_neg h0, if_neg h1, if_pos h2]

/-- A larger address in use keeps the handler busy for ever. -/
theorem not_servesClock (hlive : c.Live M q) (hlarger : ∃ b, clockSemaphore M < b ∧ q.waiting b ≠ []) :
    ¬ ServesClock M c e := by
  rintro ⟨n, k, hrun, -⟩
  obtain ⟨k', hspin⟩ := clockInterrupt_spin (M := M) (n := n) (d := (c.taken e).data)
    hlive.represents (hlive.settled.congr rfl rfl) hlarger
  exact absurd (hspin.symm.trans hrun) nofun

/-- The clock interrupt does its work exactly when no semaphore with a larger
address than the clock's is active. -/
theorem servesClock_iff (hc : (nucleus M).Reachable c) (hlegal : Legal M c e)
    (hex : e.exception = .INTERRUPT) (hline : pendingLine e.state.s_cause = some 2) :
    ServesClock M c e ↔ ∀ a, clockSemaphore M < a → c.kernel.heap.blockedOn a = [] := by
  obtain ⟨q, hlive⟩ := Config.Live.of_legal hc hlegal (Or.inl (by simp [hex]))
  have hblocked : ∀ a, c.kernel.heap.blockedOn a = q.waiting a := hlive.represents.blockedOn_eq
  constructor
  · intro hserves a ha
    by_contra hne
    exact not_servesClock hlive ⟨a, ha, hblocked a ▸ hne⟩ hserves
  · intro hlast
    have hn : Nucleus.Settled M ⟨q, (c.taken e).data⟩ := hlive.settled.congr rfl rfl
    have hclock := clockInterrupt_spec (n := (q.waiting (clockSemaphore M)).length + 1)
      hlive.represents hn fun b hb => (hblocked b).symm.trans (hlast b hb)
    rw [if_neg (by omega)] at hclock
    obtain ⟨h', n', hn', hrun, hrep', -⟩ := hclock
    have hwoken : Nucleus.Woken (clockSemaphore M) ⟨q, (c.taken e).data⟩ n' := by
      subst hn'
      have htimer : Nucleus.Settled M ⟨q, { (c.taken e).data with intervalTimer := INTTIME }⟩ :=
        hn.congr rfl rfl
      have hstart := Nucleus.woken_wakeAll (a := clockSemaphore M) htimer
      exact ⟨hstart.1, hstart.2, hstart.3, hstart.4, hstart.5, hstart.6⟩
    have harea : ((e.enter c.kernel.data).old .INTPOLDAREA).s_cause = e.state.s_cause := by
      simp [Entry.enter, hex, Exception.area]
    refine ⟨_, _, hrun, ?_, ?_⟩
    · rw [run_ioTrapHandler_clock (harea ▸ hline)]
      exact Exec.run_bind_ok hrun
    · have hready : c.kernel.heap.readyList = q.ready := hlive.represents.readyList_eq
      have hsemAdd : c.kernel.heap.pcb_semAdd = q.semAdd := hlive.represents.semAdd
      refine ⟨?_, ?_, fun a ha => ?_, fun p hp => ?_, fun p hp => ?_, ?_, ?_⟩
      · rw [hrep'.readyList_eq, hwoken.ready]
        exact congrArg₂ (· ++ ·) hready.symm (hblocked _).symm
      · rw [hrep'.blockedOn_eq, hwoken.waiting]
      · rw [hrep'.blockedOn_eq, hwoken.others a ha]
        exact (hblocked a).symm
      · rw [hrep'.semAdd, hwoken.semAdd p ((hblocked _) ▸ hp)]
      · rw [hrep'.semAdd, hwoken.kept p ((hblocked _) ▸ hp)]
        exact congrFun hsemAdd.symm p
      · show n'.data.softBlockCount = _
        rw [hwoken.softBlockCount, show (c.taken e).heap.blockedOn (clockSemaphore M) = _ from
          hblocked (clockSemaphore M)]
      · exact Function.update_self _ _ _

/-- Two processes wait for the clock, and one on a semaphore in front of those of the nucleus. -/
def smallSleep : Config := smallPlay [.call 1 0x20001000 0 0, .call 1 0x20001000 0 0,
  .call 1 0x20001000 0 0, .call 7 0 0 0, .call 7 0 0 0, .call 4 0x20001800 0 0]

theorem servesClock_iff_small :
    smallSleep.kernel.heap.asl = [(0x20001800, [17]), (clockSemaphore smallMachine, [19, 18])] ∧
    ServesClock smallMachine smallSleep (smallSleep.interrupt LINETWO 0 fun _ => ⟨0, 0, 0, 0⟩) := by
  have hasl : smallSleep.kernel.heap.asl =
      [(0x20001800, [17]), (clockSemaphore smallMachine, [19, 18])] := by
    decide +kernel
  have hsleep : (nucleus smallMachine).Reachable smallSleep :=
    smallPlay_reachable (by decide +kernel)
  refine ⟨hasl, (servesClock_iff hsleep (.interrupt (by decide +kernel)) rfl (by decide)).mpr
    fun a ha => ?_⟩
  have hfirst : (0x20001800 : Word) < clockSemaphore smallMachine := by decide
  unfold Heap.blockedOn
  rw [hasl]
  rw [FifoMap.queue, if_neg (hfirst.trans ha).ne, FifoMap.queue, if_neg ha.ne, FifoMap.queue_nil]

/-- The first process creates another one. -/
def smallParent : Config := smallBoot.handle smallMachine 1 (smallBoot.call 1 0x20001000 0 0)

/-- And then waits on a semaphore behind those of the nucleus. -/
def smallWaiting : Config :=
  smallParent.handle smallMachine 1 (smallParent.call 4 0x20003000 0 0)

theorem not_always_servesClock :
    ¬ ∀ (M : Machine) (c : Config) (e : Entry), (nucleus M).Reachable c → Legal M c e →
      e.exception = .INTERRUPT → pendingLine e.state.s_cause = some 2 → ServesClock M c e := by
  intro hall
  have hparent : (nucleus smallMachine).Reachable smallParent :=
    Reachable.handle smallBoot_reachable (.call (by decide +kernel) (by decide +kernel))
      (by decide +kernel)
  have hwaiting : (nucleus smallMachine).Reachable smallWaiting :=
    Reachable.handle hparent (.call (by decide +kernel) (by decide +kernel)) (by decide +kernel)
  have hlegal : Legal smallMachine smallWaiting
      (smallWaiting.interrupt LINETWO 0 fun _ => ⟨0, 0, 0, 0⟩) := .interrupt (by decide +kernel)
  obtain ⟨q, hlive⟩ := Config.Live.of_legal hwaiting hlegal (Or.inl nofun)
  refine not_servesClock hlive ⟨0x20003000, by decide, ?_⟩
    (hall _ _ _ hwaiting hlegal rfl (by decide))
  rw [← hlive.represents.blockedOn_eq]
  decide +kernel

end Kaya
