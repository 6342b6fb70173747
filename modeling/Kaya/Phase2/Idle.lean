import Kaya.Phase2.Script
import Kaya.Phase2.SoftBlock

open Links Exec

namespace Kaya

variable {M : Machine} {q : Queues} {d : Data} {n : Nucleus} {next : Next} {c c' : Config}
  {e : Entry}

namespace Kernel

/-- Some pcb is in use. -/
def Alive (k : Kernel) : Prop := ∃ p, p ∉ k.heap.freeList

/-- `p` is blocked on a device semaphore or on the clock semaphore. -/
def SoftWaits (M : Machine) (k : Kernel) (p : Pid) : Prop :=
  ∃ i < TOTALSEM, p ∈ k.heap.blockedOn (M.semAdd (BitVec.ofNat 32 i))

instance (M : Machine) (k : Kernel) (p : Pid) : Decidable (k.SoftWaits M p) :=
  inferInstanceAs (Decidable (∃ i, i < TOTALSEM ∧ _))

/-- What the scheduler has to do when it finds nobody ready. -/
structure Idled (M : Machine) (k : Kernel) (x : Stop) : Prop where
  idle : k.heap.readyList = []
  ends : x = .HALT ∨ x = .PANIC ∨ x = .WAIT
  halts : x = .HALT ↔ ¬ k.Alive
  panics : x = .PANIC ↔ k.Alive ∧ ∀ p, ¬ k.SoftWaits M p
  waits : x = .WAIT ↔ ∃ p, k.SoftWaits M p

end Kernel

/-- A process is killed that waits on the `int` behind the semaphores. -/
def Drifts (M : Machine) (c : Config) (e : Entry) : Prop :=
  ∃ p x, c.kernel.data.currentProcess = .to p ∧ e.terminates M c.kernel.heap p ∧
    Forest.Descends c.kernel.heap.childList p x ∧ x ∈ c.kernel.heap.blockedOn M.semEnd

/-- A handler that stops on its own leaves the current process as it is. -/
theorem Handles.current {ex : Exception} {y : Stop} (hact : Handles M q d ex n (.stop y)) :
    n.data.currentProcess = d.currentProcess ∧
      (ex = .INTERRUPT → y = .PANIC ∧ (pendingLine (d.old .INTPOLDAREA).s_cause = some 0 ∨
        pendingLine (d.old .INTPOLDAREA).s_cause = none)) := by
  have hpull : ∀ {d' : Data} {type : TrapType}, PullUp M q d' type n (.stop y) →
      n.data.currentProcess = d'.currentProcess := by
    intro d' type hact
    cases hact <;> rfl
  cases hact with
  | service _ _ hact =>
    refine ⟨?_, nofun⟩
    show n.data.currentProcess = d.advance.currentProcess
    generalize callNumber d = call at hact
    cases hact <;> rfl
  | privileged _ _ hact => exact ⟨(hpull hact : _ = d.reserved.currentProcess), nofun⟩
  | unknown _ hact => exact ⟨hpull hact, nofun⟩
  | pgmTrap hact => exact ⟨hpull hact, nofun⟩
  | tlbTrap hact => exact ⟨hpull hact, nofun⟩
  | interrupt hact =>
    cases hact with
    | panic hline => exact ⟨rfl, fun _ => ⟨rfl, hline⟩⟩

/-- What the scheduler has to do when nobody is ready. -/
def Queues.verdict (M : Machine) (q : Queues) : Stop :=
  if ∀ p, p ∈ q.free then .HALT else if q.softCount M = 0 then .PANIC else .WAIT

theorem Nucleus.Valid.verdict (hn : n.Valid M) (hcount : n.Counted M) :
    n.data.verdict = some (n.queues.verdict M) := by
  have hsoft : n.data.softBlockCount = n.queues.softCount M := hcount
  have hsum := hn.count
  have hlen : n.queues.free.length ≤ MAXPROC := nodup_length_le hn.wf.free_nodup
  unfold Data.verdict Queues.verdict
  by_cases hall : ∀ p, p ∈ n.queues.free
  · have hfull : MAXPROC ≤ n.queues.free.length := by
      have hsub := (List.nodup_finRange MAXPROC).subperm fun p _ => hall p
      simpa using hsub.length_le
    rw [if_pos hall, if_pos (by omega)]
  · have hsome : n.queues.free.length < MAXPROC := by
      refine lt_of_le_of_ne hlen fun heq => hall ?_
      intro p
      have hperm := List.subperm_of_subset hn.wf.free_nodup
        (fun x _ => List.mem_finRange x : n.queues.free ⊆ List.finRange MAXPROC)
      exact (hperm.perm_of_length_le (by simp [heq])).mem_iff.mpr (List.mem_finRange p)
    rw [if_neg hall, if_neg (by omega), if_pos (by omega)]
    by_cases hzero : n.queues.softCount M = 0
    · rw [if_pos hzero, if_pos (by omega)]
    · rw [if_neg hzero, if_neg (by omega), if_pos (by omega)]

/-- A live nucleus whose counter is right and which has a current process unless
it was stopped or waits. -/
structure Config.Exact (M : Machine) (c : Config) (q : Queues) : Prop extends c.Live M q where
  counted : Nucleus.Counted M ⟨q, c.kernel.data⟩
  current : c.kernel.data.currentProcess = .null →
    c.stop = .HALT ∨ c.stop = .PANIC ∨ c.stop = .WAIT

/-- Nobody is ready, and the scheduler has done what is right for the tables. -/
def Config.Rests (M : Machine) (c : Config) (q : Queues) : Prop :=
  q.ready = [] ∧ c.stop = q.verdict M

theorem Booted.exact (hrep : Represents c.kernel.heap Queues.booted)
    (hd : Booted M c.kernel.data) :
    c.Exact M Queues.booted where
  represents := hrep
  settled := hd.settled
  counted := hd.softBlockCount
  current hnull := by simp [hd.current] at hnull

/-- Only an interrupt can come when there is no current process. -/
theorem Config.Exact.interrupt (hc : c.Exact M q) (hlegal : Legal M c e)
    (hnull : c.kernel.data.currentProcess = .null) : e.exception = .INTERRUPT := by
  have hresumes := hlegal.resumes
  generalize e.exception = ex at hresumes ⊢
  rcases hc.current hnull with hstop | hstop | hstop
  · rw [hstop] at hresumes
    cases hresumes
  · rw [hstop] at hresumes
    cases hresumes
  · rw [hstop] at hresumes
    cases hresumes
    rfl

/-- The own work of a handler keeps the counter right, if the step does not drift. -/
theorem Config.Exact.handles (hc : c.Exact M q) (hlegal : Legal M c e) (hkeeps : ¬ Drifts M c e)
    (hact : Handles M q (e.enter c.kernel.data) e.exception n next) : n.Counted M := by
  have hs : Nucleus.Settled M ⟨q, e.enter c.kernel.data⟩ := hc.settled.congr rfl rfl
  have hn : Nucleus.Counted M ⟨q, e.enter c.kernel.data⟩ := hc.counted.congr rfl
  have hkill : ∀ p l, c.kernel.data.currentProcess = .to p → q.children.Postorder p l →
      e.terminates M c.kernel.heap p → ∀ x ∈ l, x ∉ q.waiting M.semEnd := by
    intro p l hcur hl hterm x hx hwait
    have hp : p ∉ q.free := fun hf =>
      hc.settled.unplaced p hcur (Queues.mem_placed.mpr (Or.inl hf))
    refine hkeeps ⟨p, x, hcur, hterm, ?_, ?_⟩
    · rw [hc.represents.descends_iff hc.settled.wf hp]
      exact (hl.mem_iff hc.settled.wf.acyclic x).mp hx
    · rwa [hc.represents.blockedOn_eq]
  have hstates : c.kernel.heap.pcb_states = q.states := hc.represents.states
  rcases hact.cases_enter with ⟨number, hcall, -, -, hact⟩ | ⟨type, hraises, hact⟩ | ⟨hex, hact⟩
  · have hargs := hlegal.arguments hcall.1 hcall.2.1
    have hs' : Nucleus.Settled M ⟨q, (e.enter c.kernel.data).advance⟩ := hs.congr rfl rfl
    refine hact.counted hs' (hn.congr rfl) ?_ ?_ ?_
    · rintro hnumber ⟨i, hi, heq⟩
      rw [Entry.advance_arg hcall.1] at heq
      refine hargs.semaphore ?_ i hi heq
      rcases hnumber with rfl | rfl
      · exact Or.inl hcall.2.2
      · exact Or.inr hcall.2.2
    · rintro rfl
      exact hargs.onDevice hcall
    · rintro p l hcur hl (rfl | ⟨rfl, type, htype, hnew⟩)
      · exact hkill p l hcur hl (Or.inl hcall)
      · rw [Entry.advance_arg hcall.1] at htype
        exact hkill p l hcur hl (Or.inr (Or.inl ⟨hcall, type, htype, by rwa [hstates]⟩))
  · have hpass : (e.pass c.kernel.data).currentProcess = c.kernel.data.currentProcess ∧
        (e.pass c.kernel.data).processCount = c.kernel.data.processCount ∧
        (e.pass c.kernel.data).softBlockCount = c.kernel.data.softBlockCount := by
      unfold Entry.pass
      split <;> exact ⟨rfl, rfl, rfl⟩
    refine hact.counted (hc.settled.congr hpass.1 hpass.2.1) (hc.counted.congr hpass.2.2) ?_
    intro p l hcur hl hnew hold
    rw [← hstates] at hnew hold
    exact hkill p l (hpass.1 ▸ hcur) hl (Or.inr (Or.inr ⟨type, hraises, hnew, hold⟩))
  · have hs' : Nucleus.Settled M ⟨q, (e.enter c.kernel.data).stopClock⟩ := hs.congr rfl rfl
    exact hact.counted hs' (hn.congr rfl)

/-- A step that does not drift keeps the counter right, and the scheduler then
does the right thing when nobody is ready. -/
theorem Config.Exact.step (hc : c.Exact M q) (hstep : (nucleus M).step c e c')
    (hkeeps : ¬ Drifts M c e) : ∃ q', c'.Exact M q' ∧
      (e.serviced → c'.kernel.data.currentProcess = .null → c'.Rests M q') := by
  have hlegal := hstep.1
  rcases step_spec hstep hc.represents hc.settled with
    ⟨n, next, hfollows⟩ | ⟨hex, -, -, -, hderails⟩
  · have hs : Nucleus.Settled M ⟨q, e.enter c.kernel.data⟩ := hc.settled.congr rfl rfl
    have hlive := hfollows.live hc.represents hs
    have hcounted := hc.handles hlegal hkeeps hfollows.handles
    have hact := hfollows.handles
    have hstop := hfollows.stop
    have hdata := hfollows.data
    refine ⟨(next.finish n).2.queues, ?_⟩
    cases next with
    | stop y =>
      obtain ⟨hcur, hpanic⟩ := hact.current
      have hinterrupt : c'.kernel.data.currentProcess = .null →
          c'.stop = .PANIC ∧ ¬ e.serviced := by
        intro hnull
        rw [hdata] at hnull
        have hex := hc.interrupt hlegal (hcur.symm.trans hnull)
        obtain ⟨rfl, hline⟩ := hpanic hex
        refine ⟨hstop, fun hserviced => ?_⟩
        have harea : (e.enter c.kernel.data).old .INTPOLDAREA = e.state := by
          simp [Entry.enter, hex, Exception.area]
        rw [harea] at hline
        rcases hline with hline | hline
        · exact (hserviced hex).1 hline
        · exact (hserviced hex).2 hline
      refine ⟨⟨hlive, ?_, fun hnull => Or.inr (Or.inl (hinterrupt hnull).1)⟩, ?_⟩
      · rw [hdata]
        exact hcounted
      · exact fun hserviced hnull => absurd hserviced (hinterrupt hnull).2
    | sched resume =>
      have hvalid : n.Valid M := hact.sound hc.represents hs
      have hverdict := hvalid.verdict hcounted
      simp only [Next.finish, Nucleus.schedule] at hlive hstop hdata ⊢
      cases hready : n.queues.ready with
      | nil =>
        simp only [hready, hverdict, Option.getD_some] at hlive hstop hdata ⊢
        refine ⟨⟨hlive, ?_, fun _ => ?_⟩, fun _ _ => ⟨hready, hstop⟩⟩
        · rw [hdata]
          simpa [Nucleus.Counted, Data.idle] using hcounted
        · rw [hstop]
          unfold Queues.verdict
          split
          · exact Or.inl rfl
          · split
            · exact Or.inr (Or.inl rfl)
            · exact Or.inr (Or.inr rfl)
      | cons y rest =>
        simp only [hready] at hlive hstop hdata ⊢
        have hsome : c'.kernel.data.currentProcess ≠ .null := by
          rw [hdata]
          simp [Data.dispatch]
        refine ⟨⟨hlive, ?_, fun hnull => absurd hnull hsome⟩, fun _ hnull => absurd hnull hsome⟩
        rw [hdata]
        have hsoft : (n.data.charge.dispatch y).softBlockCount = n.data.softBlockCount := by
          simp [Data.dispatch]
        have hcount : (n.queues.unready y).softCount M = n.queues.softCount M :=
          Queues.softCount_congr rfl fun _ _ => rfl
        exact hcounted.kept hsoft hcount
  · have hnull : c.kernel.data.currentProcess = .null := by
      generalize callNumber (e.enter c.kernel.data) = call at hderails
      cases hderails with
      | create hcur _ _ => exact hcur
      | clock hcur _ _ _ _ _ => exact hcur
    have hinterrupt := hc.interrupt hlegal hnull
    rw [hex] at hinterrupt
    exact absurd hinterrupt (by simp)

theorem Represents.softWaits_iff {k : Kernel} {p : Pid} (hrep : Represents k.heap q) (hq : q.WF) :
    k.SoftWaits M p ↔ p ∈ (FifoMap.values q.asl).filter (M.onDevice <| q.semAdd ·) := by
  unfold Kernel.SoftWaits
  simp only [hrep.blockedOn_eq, List.mem_filter, decide_eq_true_eq]
  constructor
  · rintro ⟨i, hi, hp⟩
    exact ⟨Queues.mem_values_of_mem_waiting hp, i, hi, hq.blocked _ p hp⟩
  · rintro ⟨hp, i, hi, heq⟩
    exact ⟨i, hi, heq ▸ hq.mem_waiting_semAdd hp⟩

theorem Represents.softCount_eq {k : Kernel} (hrep : Represents k.heap q) (hq : q.WF) :
    q.softCount M = (List.finRange MAXPROC).countP (k.SoftWaits M ·) := by
  unfold Queues.softCount
  rw [List.countP_eq_length_filter, List.countP_eq_length_filter]
  refine List.Perm.length_eq ((List.perm_ext_iff_of_nodup (hq.values_nodup.filter _)
    ((List.nodup_finRange MAXPROC).filter _)).mpr fun p => ?_)
  rw [← hrep.softWaits_iff hq]
  simp

/-- The verdict of the tables, read off the heap. -/
theorem Config.Rests.idled (hrests : c.Rests M q) (hlive : c.Live M q) :
    c.kernel.Idled M c.stop := by
  obtain ⟨hready, hstop⟩ := hrests
  have hq := hlive.settled.wf
  have hfree : c.kernel.heap.freeList = q.free := hlive.represents.freeList_eq hq.free_nodup
  have halive : c.kernel.Alive ↔ ¬ ∀ p, p ∈ q.free := by
    unfold Kernel.Alive
    rw [hfree, not_forall]
  have hwaits : (∃ p, c.kernel.SoftWaits M p) ↔ q.softCount M ≠ 0 := by
    unfold Queues.softCount
    rw [List.countP_eq_length_filter, Ne, List.length_eq_zero_iff, List.eq_nil_iff_forall_not_mem]
    simp only [hlive.represents.softWaits_iff hq, not_forall, not_not]
  have hlives : q.softCount M ≠ 0 → ¬ ∀ p, p ∈ q.free := by
    rw [← hwaits]
    rintro ⟨p, i, -, hp⟩ hall
    rw [hlive.represents.blockedOn_eq] at hp
    exact hq.not_blocked_of_free (hall p) (Queues.mem_values_of_mem_waiting hp)
  have hnone : (∀ p, ¬ c.kernel.SoftWaits M p) ↔ q.softCount M = 0 := by
    rw [← not_exists, hwaits, not_not]
  have hready' : c.kernel.heap.readyList = [] := hlive.represents.readyList_eq.trans hready
  rw [hstop]
  by_cases hall : ∀ p, p ∈ q.free
  · have hzero : q.softCount M = 0 := by
      by_contra hne
      exact hlives hne hall
    rw [show q.verdict M = .HALT from if_pos hall]
    refine ⟨hready', Or.inl rfl, iff_of_true rfl ?_, iff_of_false nofun ?_, iff_of_false nofun ?_⟩
    · rw [halive, not_not]
      exact hall
    · exact fun h => halive.mp h.1 hall
    · exact fun h => hwaits.mp h hzero
  by_cases hzero : q.softCount M = 0
  · rw [show q.verdict M = .PANIC from by rw [Queues.verdict, if_neg hall, if_pos hzero]]
    refine ⟨hready', Or.inr (Or.inl rfl), iff_of_false nofun ?_, iff_of_true rfl ?_,
      iff_of_false nofun ?_⟩
    · exact fun h => h (halive.mpr hall)
    · exact ⟨halive.mpr hall, hnone.mpr hzero⟩
    · exact fun h => hwaits.mp h hzero
  · rw [show q.verdict M = .WAIT from by rw [Queues.verdict, if_neg hall, if_neg hzero]]
    refine ⟨hready', Or.inr (Or.inr rfl), iff_of_false nofun ?_, iff_of_false nofun ?_,
      iff_of_true rfl ?_⟩
    · exact fun h => h (halive.mpr hall)
    · exact fun h => hzero (hnone.mp h.2)
    · exact hwaits.mpr hzero

/-- In every run that kills nobody who waits on the `int` behind the semaphores,
`softBlockCount` is the number of processes that wait for a device or the
clock, and the scheduler does what that number calls for: a step that ends with
no current process ends with the right verdict. -/
theorem softBlockCount_of_run (hc : ((nucleus M).restrict fun c e _ => ¬ Drifts M c e).Reachable c) :
    c.kernel.data.softBlockCount = (List.finRange MAXPROC).countP (c.kernel.SoftWaits M ·) ∧
      ∀ e c', (nucleus M).step c e c' → ¬ Drifts M c e → e.serviced →
        c'.kernel.data.currentProcess = .null → c'.kernel.Idled M c'.stop := by
  have hexact : ∃ q, c.Exact M q := by
    refine hc.invariant (I := fun c => ∃ q, c.Exact M q) (fun c hinit => ?_)
      fun c e c' hinv hstep => ?_
    · obtain ⟨-, hrep, hbooted⟩ := nucleus_init hinit
      exact ⟨_, hbooted.exact hrep⟩
    · obtain ⟨q, hexact⟩ := hinv
      obtain ⟨q', hexact', -⟩ := hexact.step hstep.1 hstep.2
      exact ⟨q', hexact'⟩
  obtain ⟨q, hexact⟩ := hexact
  refine ⟨?_, fun e c' hstep hkeeps hserviced hnull => ?_⟩
  · rw [← hexact.represents.softCount_eq hexact.settled.wf]
    exact hexact.counted
  · obtain ⟨q', hexact', hrests⟩ := hexact.step hstep hkeeps
    exact (hrests hserviced hnull).idled hexact'.toLive

/-- The first process, alone, waits for the clock. -/
theorem softBlockCount_of_run_small :
    (smallBoot.handle smallMachine 1 (smallBoot.call 7 0 0 0)).kernel.Idled smallMachine
      (smallBoot.handle smallMachine 1 (smallBoot.call 7 0 0 0)).stop := by
  have hnobody : smallBoot.kernel.heap.blockedOn smallMachine.semEnd = [] := by decide +kernel
  refine (softBlockCount_of_run smallBoot_restrict).2 (smallBoot.call 7 0 0 0) _
    (handle_step (.call (by decide +kernel) (by decide +kernel)) (by decide +kernel)) ?_
    (by decide +kernel) (by decide +kernel)
  rintro ⟨p, x, -, -, -, hx⟩
  simp [hnobody] at hx

/-- The first process creates another one and its time runs out. -/
def smallPair : Config :=
  (smallBoot.handle smallMachine 1 (smallBoot.call 1 0x20001000 0 0)).handle smallMachine 1
    ((smallBoot.handle smallMachine 1 (smallBoot.call 1 0x20001000 0 0)).interrupt LINEONE 0
      fun _ => ⟨0, 0, 0, 0⟩)

/-- The new process waits on the `int` behind the semaphores, and is killed with
its parent. -/
def smallDrift : Config :=
  (smallPair.handle smallMachine 1 (smallPair.call 4 0x200020C4 0 0)).handle smallMachine 3
    ((smallPair.handle smallMachine 1 (smallPair.call 4 0x200020C4 0 0)).call 2 0 0 0)

theorem not_always_softBlockCount :
    ¬ ∀ (M : Machine) (c : Config), (nucleus M).Reachable c → c.kernel.data.softBlockCount =
      (List.finRange MAXPROC).countP (c.kernel.SoftWaits M ·) := by
  intro hall
  have hcreated := Reachable.handle (n := 1) smallBoot_reachable
    (Legal.call (by decide +kernel)
      (show (smallBoot.call 1 0x20001000 0 0).Arguments smallMachine from by decide +kernel))
    (by decide +kernel)
  have hpair : (nucleus smallMachine).Reachable smallPair :=
    Reachable.handle hcreated (.interrupt (by decide +kernel)) (by decide +kernel)
  have hblocked := Reachable.handle (n := 1) hpair
    (Legal.call (by decide +kernel)
      (show (smallPair.call 4 0x200020C4 0 0).Arguments smallMachine from by decide +kernel))
    (by decide +kernel)
  have hdrift : (nucleus smallMachine).Reachable smallDrift :=
    Reachable.handle hblocked (.call (by decide +kernel) (by decide +kernel)) (by decide +kernel)
  have hcount : smallDrift.kernel.data.softBlockCount = -1 := by decide +kernel
  have hfalse := hall _ _ hdrift
  rw [hcount] at hfalse
  omega

end Kaya
