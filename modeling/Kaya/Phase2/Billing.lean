import Kaya.Phase2.Causes
import Kaya.Phase2.ClockInterrupt

open Links Exec

namespace Kaya

/-- The readings of the time of day never go back. -/
def Steady (clock : Nat → Word) : Prop := ∀ i j, i ≤ j → (clock i).toNat ≤ (clock j).toNat

/-- The next reading of the time of day. -/
def Data.now (d : Data) : Nat := (d.clock d.readings).toNat

/-- The time `p` has been billed for, since it was `b` at the time `t`, is no more
than has passed. -/
structure Data.Within (clock : Nat → Word) (p : Pid) (b t : Nat) (d : Data) : Prop where
  clock : d.clock = clock
  started : d.TODStarted.toNat ≤ d.now
  spent : (d.pcb_time p).toNat + t ≤
    b + if d.currentProcess = .to p then d.TODStarted.toNat else d.now

variable {M : Machine} {h : Heap} {q : Queues} {d d' : Data} {c c' : Config} {e : Entry}
  {n : Nucleus} {next : Next} {p x : Pid} {b t : Nat} {clock : Nat → Word}
  {l : List (Entry × Config)}

theorem Steady.now_le (hclock : Steady d.clock) {i : Nat} (hi : d.readings ≤ i) :
    d.now ≤ (d.clock i).toNat :=
  hclock _ _ hi

theorem toNat_add_le (a w : Word) : (a + w).toNat ≤ a.toNat + w.toNat := by
  rw [BitVec.toNat_add]
  exact Nat.mod_le _ _

/-- The time between two readings. -/
theorem toNat_sub_of_le {a w : Word} (hle : a.toNat ≤ w.toNat) :
    (w - a).toNat = w.toNat - a.toNat :=
  BitVec.toNat_sub_of_le (BitVec.le_def.mpr hle)

theorem Data.Within.spent_now (hd : d.Within clock p b t) :
    (d.pcb_time p).toNat + t ≤ b + d.now := by
  have hspent := hd.spent
  have hstarted := hd.started
  split at hspent <;> omega

theorem Data.Within.congr (hd : d.Within clock p b t) (hclock : d'.clock = d.clock)
    (hreadings : d'.readings = d.readings) (hstarted : d'.TODStarted = d.TODStarted)
    (htime : d'.pcb_time = d.pcb_time) (hcur : d'.currentProcess = d.currentProcess) :
    d'.Within clock p b t := by
  have hnow : d'.now = d.now := by rw [Data.now, Data.now, hclock, hreadings]
  refine ⟨hclock.trans hd.clock, ?_, ?_⟩
  · rw [hstarted, hnow]
    exact hd.started
  · rw [hstarted, hnow, htime, hcur]
    exact hd.spent

/-- After the current process has been billed. -/
theorem Data.Within.charge (hclock : Steady clock) (hd : d.Within clock p b t) :
    d.charge.clock = clock ∧ (d.charge.pcb_time p).toNat + t ≤ b + d.charge.now ∧
      d.charge.TODStarted.toNat ≤ d.charge.now := by
  have hsteady : Steady d.clock := hd.clock ▸ hclock
  have hstarted := hd.started
  rcases hcur : d.currentProcess with - | - | x
  · have hcharge : d.charge = d := by simp [Data.charge, hcur]
    rw [hcharge]
    exact ⟨hd.clock, hd.spent_now, hstarted⟩
  · have hcharge : d.charge = d := by simp [Data.charge, hcur]
    rw [hcharge]
    exact ⟨hd.clock, hd.spent_now, hstarted⟩
  · have hnow : d.now ≤ d.charge.now := by
      have hle := hsteady.now_le (Nat.le_succ d.readings)
      simpa [Data.charge, hcur, Data.now] using hle
    have htime : d.charge.pcb_time p = if p = x then
        d.pcb_time p + (d.clock d.readings - d.TODStarted) else d.pcb_time p := by
      by_cases hp : p = x
      · subst hp
        simp [Data.charge, hcur]
      · simp [Data.charge, hcur, hp]
    have hstarted' : d.charge.TODStarted = d.TODStarted := by simp [Data.charge, hcur]
    refine ⟨by simp [Data.charge, hcur, hd.clock], ?_, by rw [hstarted']; omega⟩
    rw [htime]
    by_cases hp : p = x
    · subst hp
      have hspent := hd.spent
      rw [if_pos hcur] at hspent
      have hbill := toNat_add_le (d.pcb_time p) (d.clock d.readings - d.TODStarted)
      rw [toNat_sub_of_le hstarted] at hbill
      rw [if_pos rfl]
      simp only [Data.now] at hstarted hnow ⊢
      omega
    · have hspent := hd.spent_now
      rw [if_neg hp]
      omega

theorem Nucleus.within_schedule (hclock : Steady clock) (hd : n.data.Within clock p b t) :
    n.schedule.2.data.Within clock p b t := by
  obtain ⟨hclock', hspent, hstarted⟩ := hd.charge hclock
  unfold Nucleus.schedule
  cases n.queues.ready with
  | nil =>
    refine ⟨hclock', hstarted, ?_⟩
    rw [if_neg (by simp [Data.idle])]
    exact hspent
  | cons x rest =>
    have hsteady : Steady n.data.charge.clock := hclock' ▸ hclock
    have hle : n.data.charge.now ≤ (n.data.charge.dispatch x).now :=
      hsteady.now_le (Nat.le_succ _)
    refine ⟨hclock', hle, ?_⟩
    by_cases hx : x = p
    · rw [if_pos (by simp [Data.dispatch, hx])]
      exact hspent
    · rw [if_neg (by simp [Data.dispatch, hx])]
      exact hspent.trans (Nat.add_le_add_left hle b)

/-- SYS6 brings the time up to date. -/
theorem Data.Within.accounted (hclock : Steady clock) (hd : d.Within clock p b t)
    (hcur : d.currentProcess = .to x) : (d.accounted x).Within clock p b t := by
  have hsteady : Steady d.clock := hd.clock ▸ hclock
  have hnext : d.now ≤ (d.clock (d.readings + 1)).toNat := hsteady.now_le (Nat.le_succ _)
  have hafter : (d.clock (d.readings + 1)).toNat ≤ (d.clock (d.readings + 2)).toNat :=
    hsteady _ _ (Nat.le_succ _)
  have hstarted := hd.started
  refine ⟨hd.clock, hafter, ?_⟩
  simp only [Data.accounted, hcur, Ptr.to.injEq]
  by_cases hp : p = x
  · subst hp
    have hspent := hd.spent
    rw [if_pos hcur] at hspent
    have hbill := toNat_add_le (d.pcb_time p) (d.clock d.readings - d.TODStarted)
    rw [toNat_sub_of_le hstarted] at hbill
    rw [if_pos rfl, Function.update_self]
    simp only [Data.now] at hstarted hnext
    omega
  · have hspent := hd.spent_now
    rw [if_neg (Ne.symm hp), Function.update_of_ne hp]
    simp only [Data.now]
    omega

theorem Service.within {call : Int} (hclock : Steady clock) (hd : d.Within clock p b t)
    (hact : Service M q d call n next) : n.data.Within clock p b t := by
  cases hact with
  | getTime hcur => exact hd.accounted hclock hcur
  | _ => exact hd.congr rfl rfl rfl rfl rfl

theorem PullUp.within {type : TrapType} (hd : d.Within clock p b t)
    (hact : PullUp M q d type n next) : n.data.Within clock p b t := by
  cases hact with
  | _ => exact hd.congr rfl rfl rfl rfl rfl

/-- The clock has been read in an interrupt; the process `p` has been billed for
time before that, unless it has been woken since. -/
structure Data.Stopped (clock : Nat → Word) (p : Pid) (b t : Nat) (woken : Prop) (d : Data) :
    Prop where
  clock : d.clock = clock
  started : d.TODStarted.toNat ≤ d.TODStopped.toNat
  stopped : d.TODStopped.toNat ≤ d.now
  current : d.currentProcess = .to p → (d.pcb_time p).toNat + t ≤ b + d.TODStarted.toNat
  blocked : ¬ woken → (d.pcb_time p).toNat + t ≤ b + d.TODStopped.toNat
  spent : (d.pcb_time p).toNat + t ≤ b + d.now

theorem Data.Within.stopClock (hclock : Steady clock) (hd : d.Within clock p b t) :
    d.stopClock.Stopped clock p b t False := by
  have hsteady : Steady d.clock := hd.clock ▸ hclock
  have hle : d.now ≤ d.stopClock.now := hsteady.now_le (Nat.le_succ _)
  have hspent := hd.spent_now
  refine ⟨hd.clock, hd.started, hle, fun hcur => ?_, fun _ => hspent,
    hspent.trans (Nat.add_le_add_left hle b)⟩
  have hcharged := hd.spent
  rwa [if_pos (show d.currentProcess = .to p from hcur)] at hcharged

theorem Data.Stopped.within {woken : Prop} (hd : d.Stopped clock p b t woken) :
    d.Within clock p b t := by
  refine ⟨hd.clock, hd.started.trans hd.stopped, ?_⟩
  split
  · exact hd.current ‹_›
  · exact hd.spent

theorem Data.Stopped.congr {woken : Prop} (hd : d.Stopped clock p b t woken)
    (hclock : d'.clock = d.clock) (hreadings : d'.readings = d.readings)
    (hstarted : d'.TODStarted = d.TODStarted) (hstopped : d'.TODStopped = d.TODStopped)
    (htime : d'.pcb_time = d.pcb_time) (hcur : d'.currentProcess = d.currentProcess) :
    d'.Stopped clock p b t woken := by
  have hnow : d'.now = d.now := by rw [Data.now, Data.now, hclock, hreadings]
  refine ⟨hclock.trans hd.clock, ?_, ?_, ?_, ?_, ?_⟩
  · rw [hstarted, hstopped]
    exact hd.started
  · rw [hstopped, hnow]
    exact hd.stopped
  · rw [hcur, htime, hstarted]
    exact hd.current
  · rw [htime, hstopped]
    exact hd.blocked
  · rw [htime, hnow]
    exact hd.spent

/-- The time of the interrupt is not billed to the interrupted process. -/
theorem Nucleus.within_preempt {woken : Prop} (hclock : Steady clock)
    (hd : n.data.Stopped clock p b t woken) : n.preempt.data.Within clock p b t := by
  unfold Nucleus.preempt
  rcases hcur : n.data.currentProcess with - | - | x
  · exact hd.within
  · exact hd.within
  have hsteady : Steady n.data.clock := hd.clock ▸ hclock
  have hle : n.data.now ≤ (n.data.preempt x).now := hsteady.now_le (Nat.le_succ _)
  have hstarted := hd.started
  have hstopped := hd.stopped
  have hgap := toNat_sub_of_le hstopped
  -- the start of the time slice moves by the length of the interrupt
  have hstart : (n.data.preempt x).TODStarted.toNat =
      n.data.TODStarted.toNat + (n.data.now - n.data.TODStopped.toNat) := by
    have hlt := (n.data.clock n.data.readings).isLt
    simp only [Data.preempt, BitVec.toNat_add, hgap, Data.now]
    simp only [Data.now] at hstopped
    rw [Nat.mod_eq_of_lt (by omega)]
  refine ⟨hd.clock, ?_, ?_⟩
  · show (n.data.preempt x).TODStarted.toNat ≤ (n.data.preempt x).now
    omega
  · show (n.data.pcb_time p).toNat + t ≤ b + if n.data.currentProcess = .to p then
      (n.data.preempt x).TODStarted.toNat else (n.data.preempt x).now
    split
    · have hspent := hd.current ‹_›
      omega
    · have hspent := hd.spent
      omega

/-- A process that the clock interrupt wakes is billed from the start of the
interrupt. -/
theorem Data.Stopped.wake {woken : Prop} (hclock : Steady clock)
    (hd : d.Stopped clock p b t woken) (hx : d.currentProcess ≠ .to x) (hwoken : p = x → ¬ woken) :
    (d.wake x).Stopped clock p b t (woken ∨ p = x) := by
  have hsteady : Steady d.clock := hd.clock ▸ hclock
  have hle : d.now ≤ (d.wake x).now := hsteady.now_le (Nat.le_succ _)
  have hstopped := hd.stopped
  have htime : ∀ {p}, p ≠ x → (d.wake x).pcb_time p = d.pcb_time p := fun hp =>
    Function.update_of_ne hp _ _
  refine ⟨hd.clock, hd.started, hstopped.trans hle, fun hcur => ?_, fun hnot => ?_, ?_⟩
  · have hp : p ≠ x := fun heq => hx (heq ▸ hcur)
    rw [htime hp]
    exact hd.current hcur
  · rw [not_or] at hnot
    rw [htime hnot.2]
    exact hd.blocked hnot.1
  · by_cases hp : p = x
    · subst hp
      have hblocked := hd.blocked (hwoken rfl)
      have hbill := toNat_add_le (d.pcb_time p) (d.clock d.readings - d.TODStopped)
      rw [toNat_sub_of_le hstopped] at hbill
      have hself : (d.wake p).pcb_time p =
          d.pcb_time p + (d.clock d.readings - d.TODStopped) := Function.update_self _ _ _
      rw [hself]
      simp only [Data.now] at hstopped hle ⊢
      omega
    · rw [htime hp]
      exact hd.spent.trans (Nat.add_le_add_left hle b)

theorem Nucleus.stopped_wakeAll {a : Word} (hclock : Steady clock)
    (hd : n.data.Stopped clock p b t False) (hnodup : (n.queues.waiting a).Nodup)
    (hcur : ∀ x ∈ n.queues.waiting a, n.data.currentProcess ≠ .to x) :
    ∃ woken, (Nucleus.wakeAll a n).data.Stopped clock p b t woken := by
  unfold Nucleus.wakeAll
  generalize n.queues.waiting a = l at hnodup hcur
  have hfold : ∀ {woken : Prop} {n : Nucleus}, n.data.Stopped clock p b t woken →
      (∀ x ∈ l, n.data.currentProcess ≠ .to x) → (p ∈ l → ¬ woken) →
      ∃ woken, (l.foldl (fun n x => ⟨n.queues.wake x, n.data.wake x⟩) n).data.Stopped
        clock p b t woken := by
    clear hd hcur
    induction l with
    | nil => exact fun hd _ _ => ⟨_, hd⟩
    | cons x l ih =>
      intro woken n hd hcur hwoken
      obtain ⟨hx, hrest⟩ := List.nodup_cons.mp hnodup
      have hd' := hd.wake hclock (hcur x List.mem_cons_self)
        fun heq => hwoken (heq ▸ List.mem_cons_self)
      refine ih hrest (n := ⟨n.queues.wake x, n.data.wake x⟩) hd'
        (fun y hy => hcur y (List.mem_cons_of_mem _ hy)) fun hp => ?_
      rintro (hbefore | rfl)
      · exact hwoken (List.mem_cons_of_mem _ hp) hbefore
      · exact hx hp
  exact hfold hd hcur fun _ => id

theorem Nucleus.stopped_signal {a : Word} {woken : Prop} (hd : n.data.Stopped clock p b t woken) :
    (Nucleus.signal a n).data.Stopped clock p b t woken := by
  unfold Nucleus.signal
  split
  · exact hd.congr rfl rfl rfl rfl rfl rfl
  · dsimp only
    split <;> exact hd.congr rfl rfl rfl rfl rfl rfl

theorem Interrupt.within {cause : Word} (hclock : Steady clock) (hd : d.Within clock p b t)
    (hn : Nucleus.Settled M ⟨q, d⟩) (hact : Interrupt M q d.stopClock cause n next) :
    n.data.Within clock p b t := by
  have hstopped := hd.stopClock hclock
  cases hact with
  | panic _ => exact hstopped.within
  | quantum _ => exact Nucleus.within_preempt (n := ⟨q, d.stopClock⟩) hclock hstopped
  | clock _ _ =>
    have hcur : ∀ x ∈ q.waiting (clockSemaphore M), d.currentProcess ≠ .to x := by
      intro x hx heq
      exact hn.unplaced x heq
        (Queues.mem_placed.mpr (Or.inr (Or.inr (Queues.mem_values_of_mem_waiting hx))))
    obtain ⟨woken, hwoken⟩ := Nucleus.stopped_wakeAll (a := clockSemaphore M)
      (n := ⟨q, { d.stopClock with intervalTimer := INTTIME }⟩) hclock
      (hstopped.congr rfl rfl rfl rfl rfl rfl) (hn.wf.waiting_nodup _) hcur
    exact Nucleus.within_preempt hclock (hwoken.congr rfl rfl rfl rfl rfl rfl)
  | device _ _ _ =>
    exact Nucleus.within_preempt hclock
      (Nucleus.stopped_signal (hstopped.congr rfl rfl rfl rfl rfl rfl))

theorem Handles.within {ex : Exception} (hclock : Steady clock) (hd : d.Within clock p b t)
    (hn : Nucleus.Settled M ⟨q, d⟩) (hact : Handles M q d ex n next) :
    n.data.Within clock p b t := by
  cases hact with
  | service _ _ hact => exact hact.within hclock (d := d.advance) (hd.congr rfl rfl rfl rfl rfl)
  | privileged _ _ hact => exact hact.within (d := d.reserved) (hd.congr rfl rfl rfl rfl rfl)
  | unknown _ hact => exact hact.within hd
  | pgmTrap hact => exact hact.within hd
  | tlbTrap hact => exact hact.within hd
  | interrupt hact => exact hact.within hclock hd hn

theorem Next.within_finish (hclock : Steady clock) (hd : n.data.Within clock p b t) :
    (next.finish n).2.data.Within clock p b t := by
  cases next with
  | stop x => exact hd
  | sched resume => exact Nucleus.within_schedule hclock hd

/-- No step bills a process for more than the time that passes. -/
theorem step_within (hclock : Steady clock) (hc : (nucleus M).Reachable c)
    (hstep : (nucleus M).step c e c') (hd : c.Dead ∨ c.kernel.data.Within clock p b t) :
    c'.Dead ∨ c'.kernel.data.Within clock p b t := by
  rcases reachable_live hc with ⟨q, hrep, hn⟩ | hdead
  · rcases hd with hdead | hd
    · exact Or.inl (hdead.step hstep).1
    have hn' : Nucleus.Settled M ⟨q, e.enter c.kernel.data⟩ := hn.congr rfl rfl
    have hd' : (e.enter c.kernel.data).Within clock p b t := hd.congr rfl rfl rfl rfl rfl
    rcases step_spec hstep hrep hn with ⟨n, next, hfollows⟩ | ⟨-, -, -, hstop, hderails⟩
    · right
      rw [hfollows.data]
      exact Next.within_finish hclock (hfollows.handles.within hclock hd' hn')
    · exact Or.inl (.of_derails hstop hderails)
  · exact Or.inl (hdead.step hstep).1

theorem path_within (hclock : Steady clock) (hc : (nucleus M).Reachable c)
    (hpath : (nucleus M).Path c l c') (hd : c.Dead ∨ c.kernel.data.Within clock p b t) :
    c'.Dead ∨ c'.kernel.data.Within clock p b t := by
  induction hpath with
  | nil => exact hd
  | cons hstep _ ih => exact ih (hc.step hstep) (step_within hclock hc hstep hd)

end Kaya
