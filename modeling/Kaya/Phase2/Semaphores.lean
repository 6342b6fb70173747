import Kaya.Phase2.DeviceInterrupt

open Links Exec

namespace Kaya

/-- A semaphore: the `int` and the processes blocked on it, longest waiting
first. -/
@[ext]
structure Semaphore where
  value : Word
  waiting : List Pid
  deriving DecidableEq

namespace Semaphore

/-- P by `p`, which blocks when the value has become negative. -/
def wait (p : Pid) (s : Semaphore) : Semaphore where
  value := s.value - 1
  waiting := if (s.value - 1).toInt < 0 then s.waiting ++ [p] else s.waiting

/-- V -/
def signal (s : Semaphore) : Semaphore where
  value := s.value + 1
  waiting := if (s.value + 1).toInt ≤ 0 then s.waiting.tail else s.waiting

/-- Each process of `l` that waits is made up for by a V of its own. -/
def kill (l : List Pid) (s : Semaphore) : Semaphore where
  value := s.value + BitVec.ofNat 32 (s.waiting.countP (· ∈ l))
  waiting := s.waiting.filter (· ∉ l)

variable {s : Semaphore} {p : Pid}

theorem wait_block (h : (s.value - 1).toInt < 0) :
    s.wait p = ⟨s.value - 1, s.waiting ++ [p]⟩ := by
  unfold wait
  rw [if_pos h]

theorem wait_pass (h : 0 ≤ (s.value - 1).toInt) : s.wait p = ⟨s.value - 1, s.waiting⟩ := by
  unfold wait
  rw [if_neg (not_lt.mpr h)]

theorem signal_wake (h : (s.value + 1).toInt ≤ 0) :
    s.signal = ⟨s.value + 1, s.waiting.tail⟩ := by
  unfold signal
  rw [if_pos h]

theorem signal_nobody (h : 0 < (s.value + 1).toInt ∨ s.waiting = []) :
    s.signal = ⟨s.value + 1, s.waiting⟩ := by
  unfold signal
  rcases h with h | h
  · rw [if_neg (not_le.mpr h)]
  · simp [h]

end Semaphore

def Kernel.semaphore (a : Word) (k : Kernel) : Semaphore := ⟨k.data.mem a, k.heap.blockedOn a⟩

def Nucleus.semaphore (a : Word) (n : Nucleus) : Semaphore := ⟨n.data.mem a, n.queues.waiting a⟩

variable {M : Machine} {h : Heap} {q : Queues} {d : Data} {c c' : Config} {e : Entry} {a b : Word}
  {n : Nucleus} {next : Next} {p x : Pid} {l : List Pid}

/-- The scheduler leaves the semaphores as they are. -/
theorem Nucleus.semaphore_finish : (next.finish n).2.semaphore a = n.semaphore a := by
  cases next with
  | stop x => rfl
  | sched resume =>
    simp only [Next.finish, Nucleus.schedule]
    split
    · simp [Nucleus.semaphore, Data.dispatch, Queues.unready, Queues.waiting]
    · simp [Nucleus.semaphore, Data.idle]

theorem Config.Follows.semaphore {ex : Exception} (hfollows : c'.Follows M q d ex n next) :
    c'.kernel.semaphore a = n.semaphore a := by
  have hfinish : (next.finish n).2.semaphore a = n.semaphore a := Nucleus.semaphore_finish
  rw [← hfinish]
  unfold Kernel.semaphore Nucleus.semaphore
  rw [hfollows.data, hfollows.represents.blockedOn_eq]

theorem Queues.waiting_block (hq : q.WF) :
    (q.block a p).waiting b = if b = a then q.waiting a ++ [p] else q.waiting b :=
  FifoMap.queue_enqueue hq.asl

theorem Queues.waiting_erase (hq : q.WF) :
    (q.erase l).waiting a = (q.waiting a).filter (· ∉ l) :=
  FifoMap.queue_restrict hq.asl

/-- Of the killed processes those count that wait on the semaphore. -/
theorem countP_semAdd (hq : q.WF) (hl : l.Nodup) (hlive : ∀ x ∈ l, x ∉ q.free) (ha : a ≠ NULL) :
    l.countP (q.semAdd · = a) = (q.waiting a).countP (· ∈ l) := by
  have hiff : ∀ x ∈ l, q.semAdd x = a ↔ x ∈ q.waiting a := by
    intro x hx
    constructor
    · rintro rfl
      refine hq.mem_waiting_semAdd (not_not.mp fun hvalues => ha ?_)
      exact (hq.semAdd_eq_NULL_iff (hlive x hx)).mpr hvalues
    · exact hq.blocked a x
  rw [List.countP_eq_length_filter, List.countP_eq_length_filter]
  apply List.Perm.length_eq
  rw [List.perm_ext_iff_of_nodup (hl.filter _) ((hq.waiting_nodup a).filter _)]
  intro x
  simp only [List.mem_filter, decide_eq_true_eq]
  constructor
  · rintro ⟨hx, hsem⟩
    exact ⟨(hiff x hx).mp hsem, hx⟩
  · rintro ⟨hwait, hx⟩
    exact ⟨hx, (hiff x hx).mpr hwait⟩

/-- The processes that are killed with the current one are in use. -/
theorem Nucleus.Settled.live (hn : Nucleus.Settled M ⟨q, d⟩) (hcur : d.currentProcess = .to p)
    (hl : q.children.Postorder p l) : ∀ x ∈ l, x ∉ q.free := by
  intro x hx
  rcases Relation.ReflTransGen.cases_tail ((hl.mem_iff hn.wf.acyclic x).mp hx) with rfl | ⟨y, -, hy⟩
  · exact fun hf => hn.unplaced _ hcur (Queues.mem_placed.mpr (Or.inl hf))
  · exact fun hf => (hn.wf.unborn x hf).2 y ((hn.wf.child y x).mp hy)

/-- Termination makes up for waiting processes on the semaphores that the range
test does not take for the nucleus's own. -/
theorem Nucleus.semaphore_killed (hn : Nucleus.Settled M ⟨q, d⟩) (hcur : d.currentProcess = .to p)
    (hl : q.children.Postorder p l) :
    Nucleus.semaphore a ⟨q.erase l, d.killed M q l⟩ =
      if deviceRange M a then ⟨d.mem a, (q.waiting a).filter (· ∉ l)⟩
      else (Nucleus.semaphore a ⟨q, d⟩).kill l := by
  have hwaiting := Queues.waiting_erase (l := l) (a := a) hn.wf
  unfold Nucleus.semaphore
  simp only [Data.killed, compensation, hwaiting]
  by_cases hrange : deviceRange M a
  · simp [hrange]
  · rw [if_neg hrange]
    by_cases ha : a = NULL
    · subst ha
      have hnobody : q.waiting NULL = [] := by
        apply List.eq_nil_iff_forall_not_mem.mpr
        exact fun x hx => hn.wf.ne_NULL hx rfl
      simp [Semaphore.kill, hnobody]
    · rw [if_neg (by simp [hrange, ha]), countP_semAdd hn.wf (hl.nodup hn.wf.acyclic)
        (hn.live hcur hl) ha]
      rfl

/-- Waking a process that waits elsewhere leaves a semaphore as it is. -/
theorem Nucleus.semaphore_wake (hq : q.WF) (hx : x ∈ q.waiting b) (ha : a ≠ b) :
    Nucleus.semaphore a ⟨q.wake x, d⟩ = Nucleus.semaphore a ⟨q, d⟩ := by
  simp [Nucleus.semaphore, Queues.waiting_wake_of_ne hq hx ha]

/-- A semaphore after the current process has been killed with its descendants. -/
def Nucleus.Terminated (M : Machine) (q : Queues) (d : Data) (a : Word) (s : Semaphore) : Prop :=
  ∃ p l, d.currentProcess = .to p ∧ q.children.Postorder p l ∧
    s = if deviceRange M a then ⟨d.mem a, (q.waiting a).filter (· ∉ l)⟩
      else (Nucleus.semaphore a ⟨q, d⟩).kill l

/-- The semaphore that a call does a P or a V on. -/
def semaphoreOf (M : Machine) (d : Data) (call : Int) : Option Word :=
  if call = 3 ∨ call = 4 then some (d.arg s_a1)
  else if call = 7 then some (clockSemaphore M)
  else if call = 8 then some (ioSemaphore M d)
  else none

/-- A call that does no P or V on a semaphore leaves it as it is or terminates
processes. -/
theorem Service.semaphore_other {call : Int} (hn : Nucleus.Settled M ⟨q, d⟩)
    (hact : Service M q d call n next) (hother : semaphoreOf M d call ≠ some a) :
    n.semaphore a = Nucleus.semaphore a ⟨q, d⟩ ∨
      (call = 2 ∨ call = 5 ∧ ∃ p type, d.currentProcess = .to p ∧
        TrapType.ofWord (d.arg s_a1) = some type ∧ q.states p type .NEW ≠ NULL) ∧
      Nucleus.Terminated M q d a (n.semaphore a) := by
  cases hact with
  | terminate hcur hl =>
    exact Or.inr ⟨Or.inl rfl, _, _, hcur, hl, Nucleus.semaphore_killed hn hcur hl⟩
  | sesvKill hcur htype hnew hl =>
    exact Or.inr ⟨Or.inr ⟨rfl, _, _, hcur, htype, hnew⟩, _, _, hcur, hl,
      Nucleus.semaphore_killed hn hcur hl⟩
  | signal _ _ _ =>
    left
    have hne : a ≠ d.arg s_a1 := fun heq => hother (by simp [semaphoreOf, heq])
    simp [Nucleus.semaphore, Data.setMem, hne]
  | @signalWake x rest v _ _ _ hwait =>
    left
    have hne : a ≠ d.arg s_a1 := fun heq => hother (by simp [semaphoreOf, heq])
    rw [Nucleus.semaphore_wake hn.wf (hwait ▸ List.mem_cons_self) hne]
    simp [Nucleus.semaphore, Data.setMem, hne]
  | wait _ _ _ =>
    left
    have hne : a ≠ d.arg s_a1 := fun heq => hother (by simp [semaphoreOf, heq])
    simp [Nucleus.semaphore, Data.setMem, hne]
  | waitBlock _ _ _ _ =>
    left
    have hne : a ≠ d.arg s_a1 := fun heq => hother (by simp [semaphoreOf, heq])
    simp [Nucleus.semaphore, Data.setMem, Data.save, Queues.waiting_block hn.wf, hne]
  | waitNobody _ _ _ _ =>
    left
    have hne : a ≠ d.arg s_a1 := fun heq => hother (by simp [semaphoreOf, heq])
    simp [Nucleus.semaphore, Data.setMem, hne]
  | clock _ _ =>
    left
    have hne : a ≠ clockSemaphore M := fun heq => hother (by simp [semaphoreOf, heq])
    simp [Nucleus.semaphore, Data.setMem, hne]
  | clockBlock _ _ _ =>
    left
    have hne : a ≠ clockSemaphore M := fun heq => hother (by simp [semaphoreOf, heq])
    simp [Nucleus.semaphore, Data.setMem, Data.save, Data.addSoftBlock,
      Queues.waiting_block hn.wf, hne]
  | io _ _ _ =>
    left
    have hne : a ≠ ioSemaphore M d := fun heq => hother (by simp [semaphoreOf, heq])
    simp [Nucleus.semaphore, Data.setMem, hne]
  | ioBlock _ _ _ _ =>
    left
    have hne : a ≠ ioSemaphore M d := fun heq => hother (by simp [semaphoreOf, heq])
    simp [Nucleus.semaphore, Data.setMem, Data.save, Data.addSoftBlock,
      Queues.waiting_block hn.wf, hne]
  | ioNobody _ _ _ _ =>
    left
    have hne : a ≠ ioSemaphore M d := fun heq => hother (by simp [semaphoreOf, heq])
    simp [Nucleus.semaphore, Data.setMem, hne]
  | _ => exact Or.inl rfl

/-- SYS4 and SYS8 are P by the current process. -/
theorem Service.semaphore_wait {call : Int} (hn : Nucleus.Settled M ⟨q, d⟩)
    (hact : Service M q d call n next) (hcall : call = 4 ∨ call = 8)
    (hsem : semaphoreOf M d call = some a) (hw : M.writable a = true)
    (hcur : d.currentProcess = .to p) :
    n.semaphore a = (Nucleus.semaphore a ⟨q, d⟩).wait p ∧ n.queues.ready = q.ready := by
  have hblock : ∀ {v : Word} {p' : Pid} {d' : Data}, v = d.mem a - 1 → v.toInt < 0 →
      d.currentProcess = .to p' → d'.mem = Function.update d.mem a v →
      Nucleus.semaphore a ⟨q.block a p', d'⟩ = (Nucleus.semaphore a ⟨q, d⟩).wait p := by
    intro v p' d' hv hneg hcur' hmem
    obtain rfl : p' = p := by simpa [hcur'] using hcur
    subst hv
    rw [Semaphore.wait_block (s := Nucleus.semaphore a ⟨q, d⟩) hneg]
    simp [Nucleus.semaphore, hmem, Queues.waiting_block hn.wf]
  have hpass : ∀ {v : Word}, v = d.mem a - 1 → 0 ≤ v.toInt →
      Nucleus.semaphore a ⟨q, d.setMem a v⟩ = (Nucleus.semaphore a ⟨q, d⟩).wait p := by
    intro v hv hpos
    subst hv
    rw [Semaphore.wait_pass (s := Nucleus.semaphore a ⟨q, d⟩) hpos]
    simp [Nucleus.semaphore, Data.setMem]
  rcases hcall with rfl | rfl
  · obtain rfl : d.arg s_a1 = a := by simpa [semaphoreOf] using hsem
    generalize hnumber : (4 : Int) = number at hact
    cases hact with
    | waitFault hfault => simp [hw] at hfault
    | waitNobody _ _ _ hcur' => simp [hcur'] at hcur
    | wait _ hv hpos => exact ⟨hpass hv hpos, rfl⟩
    | waitBlock _ hv hneg hcur' => exact ⟨hblock hv hneg hcur' rfl, rfl⟩
    | nobody hmem _ =>
      subst hnumber
      simp at hmem
    | _ => omega
  · obtain rfl : ioSemaphore M d = a := by simpa [semaphoreOf] using hsem
    generalize hnumber : (8 : Int) = number at hact
    cases hact with
    | ioFault hfault => simp [hw] at hfault
    | ioNobody _ _ _ hcur' => simp [hcur'] at hcur
    | io _ hv hpos => exact ⟨hpass hv hpos, rfl⟩
    | ioBlock _ hv hneg hcur' => exact ⟨hblock hv hneg hcur' rfl, rfl⟩
    | nobody hmem _ =>
      subst hnumber
      simp at hmem
    | _ => omega

/-- SYS3 is V, and who is woken goes to the end of the ready queue. -/
theorem Service.semaphore_signal (hn : Nucleus.Settled M ⟨q, d⟩)
    (hact : Service M q d 3 n next) (hw : M.writable (d.arg s_a1) = true) :
    n.semaphore (d.arg s_a1) = (Nucleus.semaphore (d.arg s_a1) ⟨q, d⟩).signal ∧
      n.queues.ready = q.ready ++ (if (d.mem (d.arg s_a1) + 1).toInt ≤ 0 then
        (q.waiting (d.arg s_a1)).take 1 else []) := by
  generalize hnumber : (3 : Int) = number at hact
  cases hact with
  | signalFault hfault => simp [hw] at hfault
  | @signal v _ hv hnone =>
    subst hv
    constructor
    · rw [Semaphore.signal_nobody (s := Nucleus.semaphore (d.arg s_a1) ⟨q, d⟩) hnone]
      simp [Nucleus.semaphore, Data.setMem]
    · rcases hnone with hpos | hnobody
      · rw [if_neg (not_le.mpr hpos), List.append_nil]
      · simp [hnobody]
  | @signalWake x rest v _ hv hneg hwait =>
    subst hv
    constructor
    · rw [Semaphore.signal_wake (s := Nucleus.semaphore (d.arg s_a1) ⟨q, d⟩) hneg]
      simp [Nucleus.semaphore, Data.setMem, Queues.waiting_wake_head hn.wf hwait, hwait]
    · rw [if_pos hneg, hwait]
      rfl
  | nobody hmem _ =>
    subst hnumber
    simp at hmem
  | _ => omega

/-- A trap leaves a semaphore as it is that the old area of the handler does not
overlap, or terminates processes. -/
theorem PullUp.semaphore_other {type : TrapType} (hn : Nucleus.Settled M ⟨q, d⟩)
    (hact : PullUp M q d type n next)
    (hapart : ∀ p, d.currentProcess = .to p → ∀ f : Field, f.addr (q.states p type .OLD) ≠ a) :
    n.semaphore a = Nucleus.semaphore a ⟨q, d⟩ ∨
      (∃ p, d.currentProcess = .to p ∧ q.states p type .NEW = NULL ∧
        M.readable (Field.s_cause.addr (q.states p type .OLD)) = true) ∧
      Nucleus.Terminated M q d a (n.semaphore a) := by
  have hstore : ∀ {p : Pid}, d.currentProcess = .to p →
      storeState d.mem (q.states p type .OLD) (d.old type.location) a = d.mem a := by
    intro p hcur
    exact storeState_of_ne (hapart p hcur)
  cases hact with
  | die hcur hold hnew hl =>
    exact Or.inr ⟨⟨_, hcur, hnew, hold⟩, _, _, hcur, hl, Nucleus.semaphore_killed hn hcur hl⟩
  | copyFault hcur _ _ _ hmem =>
    left
    simp [Nucleus.semaphore, hmem a (hapart _ hcur)]
  | loadFault hcur _ _ _ =>
    left
    simp [Nucleus.semaphore, hstore hcur]
  | passUp hcur _ _ _ =>
    left
    simp [Nucleus.semaphore, hstore hcur]
  | _ => exact Or.inl rfl

theorem Nucleus.mem_wakeAll : (Nucleus.wakeAll a n).data.mem = n.data.mem := by
  unfold Nucleus.wakeAll
  induction n.queues.waiting a generalizing n with
  | nil => rfl
  | cons x rest ih => exact ih

theorem Nucleus.semaphore_preempt : n.preempt.semaphore a = n.semaphore a := by
  unfold Nucleus.preempt
  split <;> rfl

/-- An interrupt does a V on the semaphore of the device that it is taken for. -/
theorem Interrupt.semaphore {cause : Word} (hn : Nucleus.Settled M ⟨q, d⟩)
    (hact : Interrupt M q d cause n next) (hclock : a ≠ clockSemaphore M) :
    n.semaphore a = if ∃ line, pendingLine cause = some line ∧ DISKINT ≤ line ∧
        deviceSemaphore M d line = a
      then (Nucleus.semaphore a ⟨q, d⟩).signal else Nucleus.semaphore a ⟨q, d⟩ := by
  cases hact with
  | panic hline =>
    rw [if_neg]
    rintro ⟨line, hline', hlo, -⟩
    rcases hline with hline | hline
    · rw [hline] at hline'
      obtain rfl : 0 = line := by simpa using hline'
      exact absurd hlo (by decide)
    · simp [hline] at hline'
  | quantum hline =>
    rw [Nucleus.semaphore_preempt, if_neg]
    rintro ⟨line, hline', hlo, -⟩
    rw [hline] at hline'
    obtain rfl : 1 = line := by simpa using hline'
    exact absurd hlo (by decide)
  | clock hline _ =>
    have hstart : Nucleus.Settled M ⟨q, { d with intervalTimer := INTTIME }⟩ := hn.congr rfl rfl
    have hwoken := Nucleus.woken_wakeAll (a := clockSemaphore M) hstart
    rw [Nucleus.semaphore_preempt, if_neg]
    · have hmem : (Nucleus.wakeAll (clockSemaphore M)
          ⟨q, { d with intervalTimer := INTTIME }⟩).data.mem = d.mem := Nucleus.mem_wakeAll
      simp [Nucleus.semaphore, Data.setMem, hclock, hmem, hwoken.others a hclock]
    · rintro ⟨line, hline', hlo, -⟩
      rw [hline] at hline'
      obtain rfl : 2 = line := by simpa using hline'
      exact absurd hlo (by decide)
  | @device line hline hlo _ =>
    have hacked : Nucleus.Settled M ⟨q, d.acked line (deviceIndex d line)⟩ := hn.congr rfl rfl
    obtain ⟨hmem, -, hreleased, -, hothers⟩ :=
      Nucleus.signal_queues (a := deviceSemaphore M d line) hacked
    rw [Nucleus.semaphore_preempt]
    by_cases ha : deviceSemaphore M d line = a
    · subst ha
      rw [if_pos ⟨line, hline, hlo, rfl⟩]
      simp only [Nucleus.semaphore, Semaphore.signal]
      rw [hreleased, hmem, Function.update_self]
      rfl
    · rw [if_neg]
      · simp only [Nucleus.semaphore]
        rw [hothers a (Ne.symm ha), hmem, Function.update_of_ne (Ne.symm ha)]
        rfl
      · rintro ⟨line', hline', -, ha'⟩
        obtain rfl : line' = line := by simpa [hline] using hline'.symm
        exact ha ha'

/-- A step that serves a call ends as the service does. -/
theorem step_service (hstep : (nucleus M).step c e c') (hex : e.exception = .SYSCALL)
    (hvalid : validCall (e.enter c.kernel.data)) (huser : ¬ userMode (e.enter c.kernel.data)) :
    ∃ n, ∀ x k, (service M n (callNumber (e.enter c.kernel.data)) sysOld >>= fun _ =>
      putALoadInMeDaddy M sysOld).run ⟨c.kernel.heap, (e.enter c.kernel.data).advance⟩ =
        .error x k → k = c'.kernel := by
  obtain ⟨-, n, hrun, -⟩ := hstep
  refine ⟨n, fun x k hk => ?_⟩
  have hentry : (kernelEntry M n e).run c.kernel =
      (handler M n e.exception >>= fun _ => throw .undefined).run
        ⟨c.kernel.heap, e.enter c.kernel.data⟩ := bind_modifyData
  have hservice := run_sysCallHandler_service (M := M) (n := n) (h := c.kernel.heap) hvalid huser
  have hcall := Exec.run_bind_error (f := fun _ => (throw .undefined : KernelM Unit))
    (hservice.trans hk)
  rw [hentry, hex, show handler M n .SYSCALL = sysCallHandler M n from rfl, hcall] at hrun
  simp only [EStateM.Result.error.injEq] at hrun
  exact hrun.2

end Kaya
