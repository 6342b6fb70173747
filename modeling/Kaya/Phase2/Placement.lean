import Kaya.Phase1.View
import Kaya.Phase2.Script

open Links Exec

namespace Kaya

variable {M : Machine} {h : Heap} {q : Queues} {d d' : Data} {p x : Pid} {l : List Pid}

namespace Kernel

/-- The current process, if there is one. -/
def current (k : Kernel) : List Pid :=
  match k.data.currentProcess with
  | .to p => [p]
  | _ => []

/-- Every occurrence of a pcb in one of the places it can be in. -/
def places (k : Kernel) : List Pid :=
  k.heap.freeList ++ k.current ++ k.heap.readyList ++ FifoMap.values k.heap.asl

/-- Each pcb is in exactly one place, `pcb_semAdd` says whether it is blocked, and
`processCount` counts the pcbs in use. -/
structure Placed (k : Kernel) : Prop where
  once : ∀ p, k.places.count p = 1
  blocked : ∀ a p, p ∈ k.heap.blockedOn a → k.heap.pcb_semAdd p = a
  idle : ∀ p, p ∈ k.current ∨ p ∈ k.heap.readyList → k.heap.pcb_semAdd p = NULL
  count : k.data.processCount = (List.finRange MAXPROC).countP (· ∉ k.heap.freeList)

end Kernel

/-- No pcb is missing. -/
def Nucleus.Covered (n : Nucleus) : Prop :=
  ∀ p, n.data.currentProcess = .to p ∨ p ∈ n.queues.placed

/-- No pcb will be missing when the handler has stopped; the scheduler forgets
the current process. -/
def Next.Covers (n : Nucleus) : Next → Prop
  | .stop _ => n.Covered
  | .sched _ => ∀ p, p ∈ n.queues.placed

theorem Next.Covers.finish {n : Nucleus} {next : Next} (hn : next.Covers n) :
    (next.finish n).2.Covered := by
  cases next with
  | stop x => exact hn
  | sched resume =>
    intro p
    show n.schedule.2.data.currentProcess = .to p ∨ p ∈ n.schedule.2.queues.placed
    unfold Nucleus.schedule
    cases hready : n.queues.ready with
    | nil => exact Or.inr (hn p)
    | cons x rest =>
      have hx : x ∈ n.queues.ready := by simp [hready]
      have hp := (Queues.placed_unready hx).mem_iff.mp (hn p)
      rcases List.mem_cons.mp hp with rfl | hp
      · exact Or.inl rfl
      · exact Or.inr hp

theorem Nucleus.Covered.congr (hn : Nucleus.Covered ⟨q, d⟩)
    (hcur : d'.currentProcess = d.currentProcess) : Nucleus.Covered ⟨q, d'⟩ :=
  fun p => (hn p).imp (fun hp => hcur.trans hp) id

/-- Nobody is missing from the queues when the current process joins them. -/
theorem Nucleus.Covered.joined {q' : Queues} (hn : Nucleus.Covered ⟨q, d⟩)
    (hcur : d.currentProcess = .to p) (hplaced : q'.placed.Perm (p :: q.placed)) :
    ∀ x, x ∈ q'.placed := by
  intro x
  rw [hplaced.mem_iff, List.mem_cons]
  refine (hn x).imp (fun hx => ?_) id
  have heq : Ptr.to p = Ptr.to x := hcur.symm.trans hx
  simpa using heq.symm

theorem Nucleus.Covered.moved {q' : Queues} (hn : Nucleus.Covered ⟨q, d⟩)
    (hcur : d'.currentProcess = d.currentProcess) (hplaced : q'.placed.Perm q.placed) :
    Nucleus.Covered ⟨q', d'⟩ :=
  fun p => (hn p).imp (fun hp => hcur.trans hp) hplaced.mem_iff.mpr

theorem Nucleus.Covered.killed (hn : Nucleus.Covered ⟨q, d⟩) (hq : q.WF)
    (hcur : d.currentProcess = .to p) (hl : q.children.Postorder p l) :
    ∀ x, x ∈ (q.erase l).placed := by
  intro x
  rw [Queues.mem_placed_erase]
  refine (hn x).imp (fun hx => ?_) id
  have heq : Ptr.to p = Ptr.to x := hcur.symm.trans hx
  obtain rfl : p = x := by simpa using heq
  exact (hl.mem_iff hq.acyclic p).mpr Forest.Descends.refl

theorem Queues.placed_create {c : Pid} {rest : List Pid} (hfree : q.free = c :: rest) :
    (q.create p c).placed.Perm q.placed := by
  rw [Queues.WF.placed_alloc hfree]
  exact Queues.placed_makeReady

theorem Service.covers {call : Int} {n : Nucleus} {next : Next} (hn : Nucleus.Settled M ⟨q, d⟩)
    (hcov : Nucleus.Covered ⟨q, d⟩) (hact : Service M q d call n next)
    (hclock : call = 7 → d.currentProcess ≠ .null → (d.mem (clockSemaphore M) - 1).toInt < 0) :
    next.Covers n := by
  cases hact with
  | create _ hfree _ => exact hcov.moved rfl (Queues.placed_create hfree)
  | createFault _ hfree _ => exact hcov.moved rfl (Queues.placed_create hfree)
  | createFull _ => exact hcov.congr rfl
  | terminate hcur hl => exact hcov.killed hn.wf hcur hl
  | signalFault _ => exact hcov
  | signal _ _ _ => exact hcov.congr rfl
  | @signalWake x rest v _ _ _ hwait =>
    have hx : x ∈ q.waiting (d.arg s_a1) := by simp [hwait]
    exact hcov.moved rfl (Queues.placed_wake hn.wf (Queues.mem_values_of_mem_waiting hx))
  | waitFault _ => exact hcov
  | wait _ _ _ => exact hcov.congr rfl
  | waitBlock _ _ _ hcur => exact hcov.joined hcur Queues.placed_block
  | waitNobody _ _ _ _ => exact hcov.congr rfl
  | sesvKill hcur _ _ hl => exact hcov.killed hn.wf hcur hl
  | sesv _ _ _ => exact hcov
  | getTime _ => exact hcov.congr rfl
  | clock hv hle =>
    have hnull : d.currentProcess = .null := by
      by_contra hne
      have hlt := hclock rfl hne
      rw [← hv] at hlt
      omega
    intro x
    exact (hcov x).resolve_left (by simp [hnull])
  | clockBlock _ _ hcur => exact hcov.joined hcur Queues.placed_block
  | ioFault _ => exact hcov
  | io _ _ _ => exact hcov.congr rfl
  | ioBlock _ _ _ hcur => exact hcov.joined hcur Queues.placed_block
  | ioNobody _ _ _ _ => exact hcov.congr rfl
  | nobody _ _ => exact hcov

theorem PullUp.covers {type : TrapType} {n : Nucleus} {next : Next}
    (hn : Nucleus.Settled M ⟨q, d⟩) (hcov : Nucleus.Covered ⟨q, d⟩)
    (hact : PullUp M q d type n next) : next.Covers n := by
  cases hact with
  | nobody _ => exact hcov
  | oldFault _ _ => exact hcov
  | die hcur _ _ hl => exact hcov.killed hn.wf hcur hl
  | copyFault _ _ _ _ _ => exact hcov.congr rfl
  | loadFault _ _ _ _ => exact hcov.congr rfl
  | passUp _ _ _ _ => exact hcov.congr rfl

theorem Nucleus.Covered.wakeAll {a : Word} (hn : Nucleus.Settled M ⟨q, d⟩)
    (hcov : Nucleus.Covered ⟨q, d⟩) : (Nucleus.wakeAll a ⟨q, d⟩).Covered := by
  generalize hl : q.waiting a = l
  induction l generalizing q d with
  | nil => rwa [Nucleus.wakeAll_nil hl]
  | cons x rest ih =>
    rw [Nucleus.wakeAll_cons hn.wf hl]
    have hx : x ∈ FifoMap.values q.asl :=
      Queues.mem_values_of_mem_waiting (a := a) (by simp [hl])
    exact ih (hn.wake hx rfl rfl) (hcov.moved rfl (Queues.placed_wake hn.wf hx))
      (Queues.waiting_wake_head hn.wf hl)

theorem Nucleus.Covered.signal {a : Word} (hn : Nucleus.Settled M ⟨q, d⟩)
    (hcov : Nucleus.Covered ⟨q, d⟩) : (Nucleus.signal a ⟨q, d⟩).Covered := by
  cases hwait : q.waiting a with
  | nil =>
    simp only [Nucleus.signal, hwait]
    exact hcov.congr rfl
  | cons x rest =>
    have hx : x ∈ FifoMap.values q.asl :=
      Queues.mem_values_of_mem_waiting (a := a) (by simp [hwait])
    simp only [Nucleus.signal, hwait]
    split
    · exact hcov.moved rfl (Queues.placed_wake hn.wf hx)
    · exact hcov.congr rfl

theorem Nucleus.Covered.preempt {n : Nucleus} (hcov : n.Covered)
    (hcur : n.data.currentProcess ≠ .zero) : ∀ x, x ∈ n.preempt.queues.placed := by
  intro x
  unfold Nucleus.preempt
  rcases hcase : n.data.currentProcess with - | - | p
  · exact (hcov x).resolve_left (by simp [hcase])
  · exact absurd hcase hcur
  · exact Nucleus.Covered.joined (q := n.queues) (d := n.data) hcov hcase Queues.placed_makeReady x

theorem Interrupt.covers {cause : Word} {n : Nucleus} {next : Next}
    (hn : Nucleus.Settled M ⟨q, d⟩) (hcov : Nucleus.Covered ⟨q, d⟩)
    (hact : Interrupt M q d cause n next) : next.Covers n := by
  cases hact with
  | panic _ => exact hcov
  | quantum _ => exact hcov.preempt hn.current
  | clock _ _ =>
    have hstart : Nucleus.Settled M ⟨q, { d with intervalTimer := INTTIME }⟩ := hn.congr rfl rfl
    have hwoken := Nucleus.Covered.wakeAll (a := clockSemaphore M) hstart (hcov.congr rfl)
    exact Nucleus.Covered.preempt (hwoken.congr rfl) (hstart.wakeAll).current
  | @device line _ _ _ =>
    have hacked : Nucleus.Settled M ⟨q, d.acked line (deviceIndex d line)⟩ := hn.congr rfl rfl
    exact Nucleus.Covered.preempt (Nucleus.Covered.signal hacked (hcov.congr rfl))
      hacked.signal.current

variable {c c' : Config} {e : Entry} {m : FifoMap Word Pid}

/-- The step loses a process: SYS7 on a clock semaphore that is not negative
afterwards calls the scheduler without blocking the caller, and SYS1 without a
current process takes a pcb for nobody. -/
def Loses (M : Machine) (c : Config) (e : Entry) : Prop :=
  (e.calls WAITCLOCK ∧ c.kernel.data.currentProcess ≠ .null ∧
      0 ≤ (e.mem (clockSemaphore M) - 1).toInt) ∨
    (e.calls CREATE_PROCESS ∧ c.kernel.data.currentProcess = .null ∧ c.kernel.heap.freeList ≠ [])

instance : Decidable (Loses M c e) := inferInstanceAs (Decidable (_ ∨ _))

theorem Handles.covers {ex : Exception} {n : Nucleus} {next : Next}
    (hn : Nucleus.Settled M ⟨q, d⟩) (hcov : Nucleus.Covered ⟨q, d⟩) (hact : Handles M q d ex n next)
    (hclock : ex = .SYSCALL → ¬ userMode d → callNumber d = 7 → d.currentProcess ≠ .null →
      (d.mem (clockSemaphore M) - 1).toInt < 0) : next.Covers n := by
  cases hact with
  | service _ huser hact =>
    have hn' : Nucleus.Settled M ⟨q, d.advance⟩ := hn.congr rfl rfl
    exact hact.covers hn' (hcov.congr rfl) (hclock rfl huser)
  | privileged _ _ hact =>
    have hn' : Nucleus.Settled M ⟨q, d.reserved⟩ := hn.congr rfl rfl
    exact hact.covers hn' (hcov.congr rfl)
  | unknown _ hact => exact hact.covers hn hcov
  | pgmTrap hact => exact hact.covers hn hcov
  | tlbTrap hact => exact hact.covers hn hcov
  | interrupt hact =>
    have hn' : Nucleus.Settled M ⟨q, d.stopClock⟩ := hn.congr rfl rfl
    exact hact.covers hn' (hcov.congr rfl)

theorem countP_not_mem (hl : l.Nodup) :
    (List.finRange MAXPROC).countP (· ∉ l) + l.length = MAXPROC := by
  have hperm : ((List.finRange MAXPROC).filter (· ∈ l)).Perm l :=
    (List.perm_ext_iff_of_nodup ((List.nodup_finRange _).filter _) hl).mpr (by simp)
  have hsplit := List.length_eq_countP_add_countP (· ∈ l) (l := List.finRange MAXPROC)
  rw [List.length_finRange, List.countP_eq_length_filter (p := fun x => decide (x ∈ l)),
    hperm.length_eq] at hsplit
  simp only [decide_eq_true_eq] at hsplit
  omega

/-- Tables in which no pcb is missing place every pcb exactly once. The map of
the active semaphores may hold keys without a queue. -/
theorem Kernel.Placed.of_represents {k : Kernel} (hrep : Represents k.heap { q with asl := m })
    (hvalues : FifoMap.values m = FifoMap.values q.asl)
    (hqueues : ∀ a, FifoMap.queue a m = FifoMap.queue a q.asl)
    (hn : Nucleus.Settled M ⟨q, k.data⟩) (hcov : Nucleus.Covered ⟨q, k.data⟩) : k.Placed := by
  have hfree : k.heap.freeList = q.free := hrep.freeList_eq hn.wf.free_nodup
  have hready : k.heap.readyList = q.ready := hrep.readyList_eq
  have hsemAdd : k.heap.pcb_semAdd = q.semAdd := hrep.semAdd
  have hplaces : k.places.Perm (k.current ++ q.placed) := by
    unfold Kernel.places Queues.placed
    rw [hfree, hready, hrep.asl_eq]
    simp only [hvalues, ← List.append_assoc]
    exact ((List.perm_append_comm).append_right _).append_right _
  have hunplaced : ∀ p ∈ k.current, p ∉ q.placed ∧ k.data.currentProcess = .to p := by
    intro p hp
    unfold Kernel.current at hp
    split at hp
    · rename_i r hr
      obtain rfl : p = r := by simpa using hp
      exact ⟨hn.unplaced p hr, hr⟩
    · simp at hp
  refine ⟨fun p => ?_, fun a p hp => ?_, fun p hp => ?_, ?_⟩
  · rw [hplaces.count_eq]
    refine List.count_eq_one_of_mem ?_ ?_
    · refine List.nodup_append.mpr ⟨?_, hn.wf.nodup, ?_⟩
      · unfold Kernel.current
        split <;> simp
      · rintro x hx y hy rfl
        exact (hunplaced x hx).1 hy
    · refine List.mem_append.mpr ((hcov p).imp (fun hp => ?_) id)
      have hcur : k.data.currentProcess = .to p := hp
      simp [Kernel.current, hcur]
  · rw [hsemAdd]
    refine hn.wf.blocked a p ?_
    unfold Heap.blockedOn at hp
    rwa [hrep.asl_eq, hqueues] at hp
  · rw [hsemAdd]
    refine hn.wf.idle p ?_ ?_
    · rcases hp with hp | hp
      · exact fun hf => (hunplaced p hp).1 (Queues.mem_placed.mpr (Or.inl hf))
      · exact fun hf => hn.wf.not_ready_of_free hf (hready ▸ hp)
    · rcases hp with hp | hp
      · exact fun hb => (hunplaced p hp).1 (Queues.mem_placed.mpr (Or.inr (Or.inr hb)))
      · exact hn.wf.not_blocked_of_ready (hready ▸ hp)
  · have hcount := hn.count
    have hsplit := countP_not_mem (l := q.free) hn.wf.free_nodup
    rw [hfree]
    simp only at hcount
    omega

theorem Config.Live.placed (hlive : c.Live M q) (hcov : Nucleus.Covered ⟨q, c.kernel.data⟩) :
    c.kernel.Placed :=
  .of_represents (m := q.asl) hlive.represents rfl (fun _ => rfl) hlive.settled hcov

theorem Booted.covered (hd : Booted M d) : Nucleus.Covered ⟨Queues.booted, d⟩ := by
  have hall : ∀ p, firstPid = p ∨ p ∈ Queues.booted.placed := by decide
  exact fun p => (hall p).imp (fun hp => hd.current.trans (congrArg Ptr.to hp)) id

/-- A step that loses nobody leads to a nucleus in which nobody is missing, or
kills the nucleus with every pcb in its place. -/
theorem Config.Live.covers_step (hlive : c.Live M q) (hcov : Nucleus.Covered ⟨q, c.kernel.data⟩)
    (hstep : (nucleus M).step c e c') (hkeeps : ¬ Loses M c e) :
    (∃ q', c'.Live M q' ∧ Nucleus.Covered ⟨q', c'.kernel.data⟩) ∨
      (c'.Dead ∧ c'.kernel.Placed) := by
  unfold Loses at hkeeps
  rw [not_or] at hkeeps
  have hn : Nucleus.Settled M ⟨q, e.enter c.kernel.data⟩ := hlive.settled.congr rfl rfl
  rcases step_spec hstep hlive.represents hlive.settled with
    ⟨n, next, hfollows⟩ | ⟨hex, hvalid, huser, hstop, hderails⟩
  · refine Or.inl ⟨_, hfollows.live hlive.represents hn, ?_⟩
    rw [hfollows.data]
    refine (hfollows.handles.covers hn (hcov.congr rfl) fun hex huser hcall hcur => ?_).finish
    have hcalls := (Entry.calls_iff hex).mpr ⟨huser, hcall⟩
    exact not_le.mp fun hle => hkeeps.1 ⟨hcalls, hcur, hle⟩
  · refine Or.inr ⟨.of_derails hstop hderails, ?_⟩
    have hcalls : ∀ number, ¬ userMode (e.enter c.kernel.data) ∧
        callNumber (e.enter c.kernel.data) = number → e.calls number :=
      fun number => (Entry.calls_iff hex).mpr
    generalize hcall : callNumber (e.enter c.kernel.data) = call at hderails
    cases hderails with
    | create hcur hfree _ _ =>
      refine absurd ⟨hcalls _ ⟨huser, hcall⟩, hcur, ?_⟩ hkeeps.2
      rw [hlive.represents.freeList_eq hlive.settled.wf.free_nodup, hfree]
      exact List.cons_ne_nil _ _
    | clock hcur hcur' hcount hrep hvalues hqueues =>
      have hcur'' : c'.kernel.data.currentProcess = c.kernel.data.currentProcess :=
        hcur'.trans hcur.symm
      exact .of_represents hrep hvalues hqueues (hlive.settled.congr hcur'' hcount)
        (hcov.congr hcur'')

/-- The first process calls SYS7 on a clock semaphore that is zero. -/
def clockWait : Entry := smallBoot.call 7 0 0 0

/-- A terminal interrupt of device 1. The scan of the bitmap stops at 8, so that the
registers behind those of the terminals are read; their transmitter status is
ready. -/
def lateTerminal : Entry := smallBoot.interrupt LINESEVEN 2 fun _ => ⟨1, 0, 1, 0⟩

def afterTerminal : Config := smallBoot.handle smallMachine 1 lateTerminal

end Kaya
