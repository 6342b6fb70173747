import Kaya.Phase2.Boot

open Links Exec

namespace Kaya

variable {M : Machine} {h : Heap} {q : Queues} {d d' : Data} {p c : Pid} {l rest : List Pid}

/-- The process that the scheduler starts leaves the ready queue. -/
theorem Nucleus.Valid.schedule {n : Nucleus} (hn : n.Valid M) : n.schedule.2.Settled M := by
  unfold Nucleus.schedule
  cases hready : n.queues.ready with
  | nil =>
    exact ⟨⟨hn.wf, by simp [Data.idle], by simpa [Data.idle] using hn.count, hn.keys⟩,
      by simp [Data.idle]⟩
  | cons p rest =>
    have hcount : (n.data.charge.dispatch p).processCount + (n.queues.free.length : Int) =
        MAXPROC := by simpa [Data.dispatch] using hn.count
    refine ⟨⟨hn.wf.unready, by simp [Data.dispatch], hcount, hn.keys⟩, ?_⟩
    intro x hx
    obtain rfl : p = x := by simpa [Data.dispatch] using hx
    have hp : p ∈ n.queues.ready := by simp [hready]
    have hnodup := (Queues.placed_unready hp).nodup_iff.mp hn.wf.nodup
    exact (List.nodup_cons.mp hnodup).1

/-- The interrupted process goes back to the ready queue. -/
theorem Nucleus.Settled.preempt {n : Nucleus} (hn : n.Settled M) : n.preempt.Valid M := by
  unfold Nucleus.preempt
  rcases hcur : n.data.currentProcess with - | - | p
  · exact hn.toValid
  · exact hn.toValid
  · refine ⟨hn.wf.makeReady (hn.unplaced p hcur), ?_, hn.count, hn.keys⟩
    simp [Data.preempt, hcur]

/-- The current process blocks at an address where there is an `int`. -/
theorem Nucleus.Settled.block {a : Word} (hn : Nucleus.Settled M ⟨q, d⟩)
    (hcur : d.currentProcess = .to p) (hw : M.writable a = true)
    (hcur' : d'.currentProcess = d.currentProcess) (hcount : d'.processCount = d.processCount) :
    Nucleus.Valid M ⟨q.block a p, d'⟩ where
  wf := hn.wf.block (hn.unplaced p hcur) (M.below _ (M.readable_of_writable _ hw))
  current := by simp [hcur', hcur]
  count := by
    show d'.processCount + (q.free.length : Int) = MAXPROC
    rw [hcount]
    exact hn.count
  keys := by
    intro e he
    rcases FifoMap.mem_enqueue_key he with rfl | ⟨e', he', heq⟩
    · exact hw
    · exact heq ▸ hn.keys e' he'

/-- The new process is ready; its parent stays current. -/
theorem Nucleus.Settled.create (hn : Nucleus.Settled M ⟨q, d⟩) (hcur : d.currentProcess = .to p)
    (hfree : q.free = c :: rest) (hcur' : d'.currentProcess = d.currentProcess)
    (hcount : d'.processCount = d.processCount + 1) :
    Nucleus.Settled M ⟨q.create p c, d'⟩ := by
  have hp : p ∉ q.free := fun hf => hn.unplaced p hcur (Queues.mem_placed.mpr (Or.inl hf))
  refine ⟨⟨hn.wf.create hfree hp, by simp [hcur', hcur], ?_, hn.keys⟩, ?_⟩
  · have hlen := hn.count
    show d'.processCount + (q.free.tail.length : Int) = MAXPROC
    simp only [hfree, List.length_cons] at hlen
    rw [hcount, hfree, List.tail_cons]
    push_cast at hlen ⊢
    omega
  · intro x hx
    obtain rfl : p = x := by simpa [hcur', hcur] using hx
    have hperm : (q.create p c).placed.Perm q.placed := by
      rw [Queues.WF.placed_alloc hfree]
      exact Queues.placed_makeReady
    rw [hperm.mem_iff]
    exact hn.unplaced p hcur

theorem Nucleus.Settled.killed (hrep : Represents h q) (hn : Nucleus.Settled M ⟨q, d⟩)
    (hcur : d.currentProcess = .to p) (hl : q.children.Postorder p l) :
    Nucleus.Valid M ⟨q.erase l, d.killed M q l⟩ := by
  have hp : p ∉ q.free := fun hf => hn.unplaced p hcur (Queues.mem_placed.mpr (Or.inl hf))
  obtain ⟨need, hkill⟩ := executeOrderSixtySix_spec (M := M) hl
  obtain ⟨-, -, -, -, hwf⟩ := hkill (d := d) hrep hn.wf hp (Or.inl hcur) hn.keys
  refine ⟨hwf, by simp [Data.killed, hcur], ?_, ?_⟩
  · have hcount := hn.count
    have hlen : (q.erase l).free.length = l.length + q.free.length := by simp [Queues.erase]
    show d.processCount - (l.length : Int) + ((q.erase l).free.length : Int) = MAXPROC
    rw [hlen, Int.natCast_add]
    simp only at hcount
    omega
  · intro e he
    obtain ⟨-, e', he', rfl⟩ := FifoMap.mem_restrict.mp he
    exact hn.keys e' he'

/-- A handler's own work leaves a settled nucleus when it is about to stop, and
a valid one when it calls the scheduler. -/
def Next.Sound (M : Machine) (n : Nucleus) : Next → Prop
  | .stop _ => n.Settled M
  | .sched _ => n.Valid M

theorem Next.Sound.finish {n : Nucleus} {next : Next} (hn : next.Sound M n) :
    (next.finish n).2.Settled M := by
  cases next with
  | stop x => exact hn
  | sched resume => exact Nucleus.Valid.schedule hn

theorem Service.sound {call : Int} {n : Nucleus} {next : Next} (hrep : Represents h q)
    (hn : Nucleus.Settled M ⟨q, d⟩) (hact : Service M q d call n next) : next.Sound M n := by
  cases hact with
  | create hcur hfree _ => exact hn.create hcur hfree rfl rfl
  | createFault hcur hfree _ => exact hn.create hcur hfree rfl rfl
  | createFull _ => exact hn.congr rfl rfl
  | terminate hcur hl => exact hn.killed hrep hcur hl
  | signalFault _ => exact hn
  | signal _ _ _ => exact hn.congr rfl rfl
  | @signalWake x rest v _ _ _ hwait =>
    have hx : x ∈ q.waiting (d.arg s_a1) := by simp [hwait]
    exact hn.wake (Queues.mem_values_of_mem_waiting hx) rfl rfl
  | waitFault _ => exact hn
  | wait _ _ _ => exact hn.congr rfl rfl
  | waitBlock hw _ _ hcur => exact hn.block hcur hw rfl rfl
  | waitNobody _ _ _ _ => exact hn.congr rfl rfl
  | sesvKill hcur _ _ hl => exact hn.killed hrep hcur hl
  | sesv hcur _ _ => exact ⟨⟨hn.wf.setStates, hn.current, hn.count, hn.keys⟩, hn.unplaced⟩
  | getTime _ => exact hn.congr rfl rfl
  | clock _ _ => exact hn.toValid.congr rfl rfl
  | clockBlock _ _ hcur => exact hn.block hcur (M.sem_writable 48 (by decide)) rfl rfl
  | ioFault _ => exact hn
  | io _ _ _ => exact hn.congr rfl rfl
  | ioBlock hw _ _ hcur => exact hn.block hcur hw rfl rfl
  | ioNobody _ _ _ _ => exact hn.congr rfl rfl
  | nobody _ _ => exact hn

theorem PullUp.sound {type : TrapType} {n : Nucleus} {next : Next} (hrep : Represents h q)
    (hn : Nucleus.Settled M ⟨q, d⟩) (hact : PullUp M q d type n next) : next.Sound M n := by
  cases hact with
  | nobody _ => exact hn
  | oldFault _ _ => exact hn
  | die hcur _ _ hl => exact hn.killed hrep hcur hl
  | copyFault _ _ _ _ _ => exact hn.congr rfl rfl
  | loadFault _ _ _ _ => exact hn.congr rfl rfl
  | passUp _ _ _ _ => exact hn.congr rfl rfl

theorem Nucleus.Settled.wakeAll {a : Word} (hn : Nucleus.Settled M ⟨q, d⟩) :
    (Nucleus.wakeAll a ⟨q, d⟩).Settled M := by
  generalize hl : q.waiting a = l
  induction l generalizing q d with
  | nil => rwa [Nucleus.wakeAll_nil hl]
  | cons x rest ih =>
    rw [Nucleus.wakeAll_cons hn.wf hl]
    have hx : x ∈ q.waiting a := by simp [hl]
    exact ih (hn.wake (Queues.mem_values_of_mem_waiting hx) rfl rfl)
      (Queues.waiting_wake_head hn.wf hl)

theorem Nucleus.Settled.signal {a : Word} (hn : Nucleus.Settled M ⟨q, d⟩) :
    (Nucleus.signal a ⟨q, d⟩).Settled M := by
  cases hwait : q.waiting a with
  | nil =>
    simp only [Nucleus.signal, hwait]
    exact hn.congr rfl rfl
  | cons x rest =>
    simp only [Nucleus.signal, hwait]
    have hx : x ∈ q.waiting a := by simp [hwait]
    split
    · exact hn.wake (Queues.mem_values_of_mem_waiting hx) rfl rfl
    · exact hn.congr rfl rfl

theorem Interrupt.sound {cause : Word} {n : Nucleus} {next : Next}
    (hn : Nucleus.Settled M ⟨q, d⟩) (hact : Interrupt M q d cause n next) : next.Sound M n := by
  cases hact with
  | panic _ => exact hn
  | quantum _ => exact hn.preempt
  | clock _ _ =>
    have hstart : Nucleus.Settled M ⟨q, { d with intervalTimer := INTTIME }⟩ := hn.congr rfl rfl
    have hwoken := hstart.wakeAll (a := clockSemaphore M)
    exact Nucleus.Settled.preempt (hwoken.congr rfl rfl)
  | device _ _ _ => exact Nucleus.Settled.preempt (Nucleus.Settled.signal (hn.congr rfl rfl))

theorem Handles.sound {ex : Exception} {n : Nucleus} {next : Next} (hrep : Represents h q)
    (hn : Nucleus.Settled M ⟨q, d⟩) (hact : Handles M q d ex n next) : next.Sound M n := by
  cases hact with
  | service _ _ hact =>
    exact hact.sound hrep (show Nucleus.Settled M ⟨q, d.advance⟩ from hn.congr rfl rfl)
  | privileged _ _ hact =>
    exact hact.sound hrep (show Nucleus.Settled M ⟨q, d.reserved⟩ from hn.congr rfl rfl)
  | unknown _ hact => exact hact.sound hrep hn
  | pgmTrap hact => exact hact.sound hrep hn
  | tlbTrap hact => exact hact.sound hrep hn
  | interrupt hact => exact hact.sound (show Nucleus.Settled M ⟨q, d.stopClock⟩ from hn.congr rfl rfl)

/-- What the handlers do keeps the nucleus settled. -/
theorem Handles.settled {ex : Exception} {n : Nucleus} {next : Next} (hrep : Represents h q)
    (hn : Nucleus.Settled M ⟨q, d⟩) (hact : Handles M q d ex n next) :
    (next.finish n).2.Settled M :=
  (hact.sound hrep hn).finish

/-- The tables of the kernel are those of `q`, and agree with its other data. -/
structure Config.Live (M : Machine) (c : Config) (q : Queues) : Prop where
  represents : Represents c.kernel.heap q
  settled : Nucleus.Settled M ⟨q, c.kernel.data⟩

theorem Booted.settled (hd : Booted M d) : Nucleus.Settled M ⟨Queues.booted, d⟩ where
  wf := Queues.initial_wf.alloc Queues.initial_free
  current := by simp [hd.current]
  count := by
    rw [hd.processCount]
    rfl
  keys := by simp [Queues.booted, Queues.initial, Queues.alloc]
  unplaced := by
    intro p hp
    obtain rfl : firstPid = p := by simpa [hd.current] using hp
    exact Queues.initial_wf.unplaced_alloc Queues.initial_free

variable {c c' : Config} {e : Entry}

theorem Config.Follows.live {d : Data} {ex : Exception} {n : Nucleus} {next : Next} {h : Heap}
    (hfollows : c'.Follows M q d ex n next) (hrep : Represents h q)
    (hn : Nucleus.Settled M ⟨q, d⟩) : c'.Live M (next.finish n).2.queues where
  represents := hfollows.represents
  settled := by
    rw [hfollows.data]
    exact hfollows.handles.settled hrep hn

/-- In every reachable state the tables are intact, unless the nucleus has lost
its current process and died. -/
theorem reachable_live {c : Config} (hc : (nucleus M).Reachable c) :
    (∃ q, c.Live M q) ∨ c.Dead := by
  refine hc.invariant (I := fun c => (∃ q, c.Live M q) ∨ c.Dead) (fun c hinit => ?_)
    fun c e c' hlive hstep => ?_
  · obtain ⟨-, hrep, hbooted⟩ := nucleus_init hinit
    exact Or.inl ⟨_, hrep, hbooted.settled⟩
  · rcases hlive with ⟨q, hrep, hn⟩ | hdead
    · rcases step_spec hstep hrep hn with ⟨n, next, hfollows⟩ | ⟨-, -, -, hstop, hderails⟩
      · exact Or.inl ⟨_, hfollows.live hrep (hn.congr rfl rfl)⟩
      · exact Or.inr (.of_derails hstop hderails)
    · exact Or.inr (hdead.step hstep).1

/-- Only a program trap can hit a dead nucleus. -/
theorem Config.Live.of_legal (hc : (nucleus M).Reachable c) (hlegal : Legal M c e)
    (hex : e.exception ≠ .PGMTRAP ∨ c.kernel.data.currentProcess ≠ .null) : ∃ q, c.Live M q := by
  rcases reachable_live hc with hlive | hdead
  · exact hlive
  · exact absurd hdead.current (hex.resolve_left fun hne => hne (hdead.exception hlegal))

end Kaya
