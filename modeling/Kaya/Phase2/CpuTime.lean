import Kaya.Phase2.Billing

open Links Exec

namespace Kaya

variable {M : Machine} {q : Queues} {d : Data} {c c' : Config} {e : Entry} {n : Nucleus}
  {next : Next} {p : Pid} {b t : Nat} {clock : Nat → Word} {l : List (Entry × Config)}

/-! The readings of the clock are what they are from the start. -/

@[simp] theorem Data.charge_clock (d : Data) : d.charge.clock = d.clock := by
  unfold Data.charge; split <;> rfl

theorem Nucleus.clock_schedule : n.schedule.2.data.clock = n.data.clock := by
  unfold Nucleus.schedule
  split <;> simp [Data.dispatch, Data.idle]

theorem Nucleus.clock_preempt : n.preempt.data.clock = n.data.clock := by
  unfold Nucleus.preempt
  split <;> rfl

theorem Nucleus.clock_wakeAll {a : Word} : (Nucleus.wakeAll a n).data.clock = n.data.clock := by
  unfold Nucleus.wakeAll
  generalize n.queues.waiting a = l
  induction l generalizing n with
  | nil => rfl
  | cons x l ih => exact ih (n := ⟨n.queues.wake x, n.data.wake x⟩)

theorem Nucleus.clock_signal {a : Word} : (Nucleus.signal a n).data.clock = n.data.clock := by
  unfold Nucleus.signal
  split
  · rfl
  · dsimp only
    split <;> rfl

theorem Service.clock_eq {call : Int} (hact : Service M q d call n next) :
    n.data.clock = d.clock := by
  cases hact <;> rfl

theorem PullUp.clock_eq {type : TrapType} (hact : PullUp M q d type n next) :
    n.data.clock = d.clock := by
  cases hact <;> rfl

theorem Interrupt.clock_eq {cause : Word} (hact : Interrupt M q d cause n next) :
    n.data.clock = d.clock := by
  cases hact with
  | panic _ => rfl
  | quantum _ => exact Nucleus.clock_preempt
  | clock _ _ => exact Nucleus.clock_preempt.trans Nucleus.clock_wakeAll
  | device _ _ _ => exact Nucleus.clock_preempt.trans Nucleus.clock_signal

theorem Config.Follows.clock_eq (hfollows : c'.Follows M q (e.enter d) e.exception n next) :
    c'.kernel.data.clock = d.clock := by
  have hwork : n.data.clock = (e.enter d).clock := by
    rcases hfollows.handles.cases_enter with ⟨_, -, -, -, hact⟩ | ⟨_, -, hact⟩ | ⟨-, hact⟩
    · exact hact.clock_eq
    · refine hact.clock_eq.trans ?_
      unfold Entry.pass
      split <;> rfl
    · exact hact.clock_eq
  rw [hfollows.data]
  refine Eq.trans ?_ hwork
  cases next with
  | stop _ => rfl
  | sched _ => exact Nucleus.clock_schedule

theorem path_clock (hc : (nucleus M).Reachable c) (hpath : (nucleus M).Path c l c') :
    c'.Dead ∨ c'.kernel.data.clock = c.kernel.data.clock := by
  induction hpath with
  | nil => exact Or.inr rfl
  | @cons c c₁ c' e l hstep hpath ih =>
    rcases reachable_live hc with ⟨q, hrep, hn⟩ | hdead
    · rcases step_spec hstep hrep hn with ⟨n, next, hfollows⟩ | ⟨-, -, -, hstop, hderails⟩
      · exact (ih (hc.step hstep)).imp id fun hclock => hclock.trans hfollows.clock_eq
      · exact Or.inl ((Config.Dead.of_derails hstop hderails).path hpath)
    · exact Or.inl ((hdead.step hstep).1.path hpath)

/-- The current time slice has not started in the future. -/
theorem reachable_started (hc : (nucleus M).Reachable c) (hclock : Steady c.kernel.data.clock) :
    c.Dead ∨ c.kernel.data.TODStarted.toNat ≤ c.kernel.data.now := by
  revert hclock
  have hinv : (nucleus M).Reachable c ∧ (Steady c.kernel.data.clock →
      c.Dead ∨ c.kernel.data.TODStarted.toNat ≤ c.kernel.data.now) := by
    refine hc.invariant (I := fun c => (nucleus M).Reachable c ∧ (Steady c.kernel.data.clock →
      c.Dead ∨ c.kernel.data.TODStarted.toNat ≤ c.kernel.data.now)) (fun c hinit => ?_)
      fun c e c' hinv hstep => ?_
    · obtain ⟨-, -, hbooted⟩ := nucleus_init hinit
      refine ⟨.init hinit, fun hclock => Or.inr ?_⟩
      rw [hbooted.TODStarted, Data.now, hbooted.readings]
      exact hclock 0 1 (by decide)
    · obtain ⟨hc, hinv⟩ := hinv
      refine ⟨hc.step hstep, fun hclock' => ?_⟩
      rcases reachable_live hc with ⟨q, hrep, hn⟩ | hdead
      · rcases step_spec hstep hrep hn with ⟨n, next, hfollows⟩ | ⟨-, -, -, hstop, hderails⟩
        · have hclock : Steady c.kernel.data.clock := hfollows.clock_eq ▸ hclock'
          have hwithin : c.Dead ∨ c.kernel.data.Within c.kernel.data.clock firstPid (2 ^ 32) 0 := by
            refine (hinv hclock).imp id fun hstarted => ⟨rfl, hstarted, ?_⟩
            have hlt := (c.kernel.data.pcb_time firstPid).isLt
            omega
          exact (step_within hclock hc hstep hwithin).imp id fun hd => hd.started
        · exact Or.inl (.of_derails hstop hderails)
      · exact Or.inl (hdead.step hstep).1
  exact hinv.2

/-- SYS1 makes `p` a process. -/
structure Creates (M : Machine) (p : Pid) (c : Config) (e : Entry) (c' : Config) : Prop where
  step : (nucleus M).step c e c'
  calls : e.calls CREATE_PROCESS
  parent : c.kernel.data.currentProcess ≠ .null
  free : c.kernel.heap.freeList.head? = some p

/-- The process whose state is loaded from its pcb, and its result register. -/
def Stop.answer : Stop → Option (Pid × Word)
  | .LDST (.pcb_state (.to p)) st => some (p, st.s_reg s_v0)
  | _ => none

/-- SYS6 returns the time `v` to the process `p`. -/
structure Answers (M : Machine) (p : Pid) (c : Config) (e : Entry) (c' : Config) (v : Word) :
    Prop where
  step : (nucleus M).step c e c'
  calls : e.calls GETTIME
  current : c.kernel.data.currentProcess = .to p
  result : c'.stop.answer = some (p, v)

theorem Answers.live {v : Word} (hc : (nucleus M).Reachable c) (h : Answers M p c e c' v) :
    ∃ q, c.Live M q := by
  refine (reachable_live hc).resolve_right fun hdead => ?_
  have hcur := h.current
  rw [hdead.current] at hcur
  exact absurd hcur (by simp)

/-- What SYS6 returns, and the data it leaves. -/
theorem Answers.accounted {v : Word} (hc : (nucleus M).Reachable c) (h : Answers M p c e c' v) :
    c'.kernel.data = (e.enter c.kernel.data).advance.accounted p ∧
      v = c.kernel.data.pcb_time p +
        (c.kernel.data.clock c.kernel.data.readings - c.kernel.data.TODStarted) := by
  obtain ⟨q, hrep, hn⟩ := h.live hc
  obtain ⟨hstep, hcalls, hcur, hresult⟩ := h
  obtain ⟨n, next, hfollows⟩ := (step_spec hstep hrep hn).resolve_right fun hderailed => by
    rw [hderailed.2.2.2.1] at hresult
    exact absurd hresult (by simp [Stop.answer])
  have hserved : Service M q (e.enter c.kernel.data).advance 6 n next := by
    rcases hfollows.handles.cases_enter with ⟨number, hcalls', -, -, hact⟩ | ⟨type, hraises, -⟩ |
      ⟨hex, -⟩
    · obtain rfl : number = 6 := hcalls'.2.2.symm.trans hcalls.2.2
      exact hact
    · simp only [Entry.raises, hcalls.1] at hraises
      rw [hcalls.2.2, if_pos (by decide), if_pos hcalls.2.1] at hraises
      exact absurd hraises (by simp)
    · rw [hcalls.1] at hex
      exact absurd hex (by simp)
  cases hserved with
  | @getTime p' hcur' =>
    obtain rfl : p = p' := by simpa using hcur.symm.trans hcur'
    refine ⟨hfollows.data, ?_⟩
    rw [hfollows.stop] at hresult
    simp only [Next.finish, Stop.answer, Option.some.injEq, Prod.mk.injEq] at hresult
    rw [← hresult.2]
    simp [Data.accounted, State.set, Data.advance, Entry.enter]
  | nobody _ hcur' => exact absurd (hcur.symm.trans hcur') (by simp)

/-- What SYS6 returns was spent since the time `t`. -/
theorem Answers.le {v : Word} (hc : (nucleus M).Reachable c) (h : Answers M p c e c' v)
    (hd : c.Dead ∨ c.kernel.data.Within clock p b t) : v.toNat + t ≤ b + c.kernel.data.now := by
  have hd' := hd.resolve_left fun hdead => by
    have hcur := h.current
    rw [hdead.current] at hcur
    exact absurd hcur (by simp)
  have hspent := hd'.spent
  have hstarted := hd'.started
  rw [if_pos h.current] at hspent
  obtain ⟨-, rfl⟩ := h.accounted hc
  have hbill := toNat_add_le (c.kernel.data.pcb_time p)
    (c.kernel.data.clock c.kernel.data.readings - c.kernel.data.TODStarted)
  rw [toNat_sub_of_le hstarted] at hbill
  simp only [Data.now] at hstarted ⊢
  omega

/-- A process whose pcb comes with no time on it never gets more processor time
from SYS6 than has passed since its creation, and between two calls of SYS6 no
process gets more than has passed between them. -/
theorem cpuTime_of_run (hc : (nucleus M).Reachable c) (hclock : Steady c.kernel.data.clock) :
    (∀ {e c₁ l c₂ e' c₃ p v}, Creates M p c e c₁ → c.kernel.data.pcb_time p = 0 →
      (nucleus M).Path c₁ l c₂ → Answers M p c₂ e' c₃ v →
      v.toNat + c.kernel.data.now ≤ c₂.kernel.data.now) ∧
    ∀ {e c₁ l c₂ e' c₃ p v v'}, Answers M p c e c₁ v → (nucleus M).Path c₁ l c₂ →
      Answers M p c₂ e' c₃ v' →
      v'.toNat + (c.kernel.data.clock (c.kernel.data.readings + 1)).toNat ≤
        v.toNat + c₂.kernel.data.now := by
  constructor
  · intro e c₁ l c₂ e' c₃ p v hcreates hzero hpath hanswers
    obtain ⟨q, hrep, hn⟩ := (reachable_live hc).resolve_right fun hdead =>
      hcreates.parent hdead.current
    have hfree : p ∈ q.free := by
      rw [← hrep.freeList_eq hn.wf.free_nodup]
      exact List.mem_of_head? hcreates.free
    have hcur : c.kernel.data.currentProcess ≠ .to p := fun hcur =>
      hn.unplaced p hcur (Queues.mem_placed.mpr (Or.inl hfree))
    have hwithin : c.Dead ∨
        c.kernel.data.Within c.kernel.data.clock p 0 c.kernel.data.now := by
      refine (reachable_started hc hclock).imp id fun hstarted => ⟨rfl, hstarted, ?_⟩
      rw [if_neg hcur, hzero]
      exact le_refl _
    have hend := path_within hclock hc (.cons hcreates.step hpath) hwithin
    have hle := hanswers.le (hc.path (.cons hcreates.step hpath)) hend
    omega
  · intro e c₁ l c₂ e' c₃ p v v' hanswers hpath hanswers'
    have hwithin : c₁.kernel.data.Within c.kernel.data.clock p v.toNat
        (c.kernel.data.clock (c.kernel.data.readings + 1)).toNat := by
      obtain ⟨hdata, rfl⟩ := hanswers.accounted hc
      have hcur : ((e.enter c.kernel.data).advance.accounted p).currentProcess = .to p :=
        hanswers.current
      rw [hdata]
      refine ⟨rfl, hclock _ _ (Nat.le_succ _), ?_⟩
      rw [if_pos hcur]
      simp [Data.accounted, Data.advance, Entry.enter]
    exact hanswers'.le (hc.path (.cons hanswers.step hpath))
      (path_within hclock (hc.step hanswers.step) hpath (Or.inr hwithin))

/-- A clock that jumps once. -/
def lateClock (i : Nat) : Word := if i < 5 then 0 else 1000

theorem lateClock_steady : Steady lateClock := by
  intro i j hij
  unfold lateClock
  split_ifs <;> first | omega | decide

def lateBoot : Config := boot smallMachine (fun _ => 0) lateClock

theorem lateBoot_reachable : (nucleus smallMachine).Reachable lateBoot :=
  .init (boot_init smallMachine _ _)

theorem lateBoot_clock : lateBoot.kernel.data.clock = lateClock := by
  obtain ⟨h, d, hrun, -, -, hclock⟩ := main_spec smallMachine (fun _ => 0) lateClock
  rw [lateBoot, boot, hrun]
  exact hclock

/-- The new process has been dispatched. -/
def lateChild : Config := (lateBoot.calling 1 0x20001000 0 0).slice

theorem answers_calling (hstop : c.stop.isLDST = true)
    (hcur : c.kernel.data.currentProcess = .to p) {v : Word}
    (hresult : (c.calling 6 0 0 0).stop.answer = some (p, v)) :
    Answers smallMachine p c (c.call 6 0 0 0) (c.calling 6 0 0 0) v := by
  refine ⟨step_calling 6 0 0 0 hstop (by decide) ?_, c.call_calls, hcur, hresult⟩
  generalize (c.calling 6 0 0 0).stop = stop at hresult ⊢
  cases stop with
  | spin => exact absurd hresult nofun
  | _ => rfl

theorem creates_calling (hstop : c.stop.isLDST = true)
    (hcur : c.kernel.data.currentProcess ≠ .null)
    (hfree : c.kernel.heap.freeList.head? = some p)
    (hspin : (c.calling 1 0x20001000 0 0).stop.isSpin = false) :
    Creates smallMachine p c (c.call 1 0x20001000 0 0) (c.calling 1 0x20001000 0 0) :=
  ⟨step_calling 1 0x20001000 0 0 hstop (by decide) hspin, c.call_calls, hcur, hfree⟩

theorem cpuTime_of_run_small :
    (1000 : Word).toNat + lateBoot.kernel.data.now ≤ lateChild.kernel.data.now ∧
    (0 : Word).toNat + (lateBoot.kernel.data.clock (lateBoot.kernel.data.readings + 1)).toNat ≤
      (0 : Word).toNat + (lateBoot.calling 6 0 0 0).kernel.data.now := by
  obtain ⟨hsince, hbetween⟩ := cpuTime_of_run lateBoot_reachable
    (lateBoot_clock ▸ lateClock_steady)
  constructor
  · exact hsince (p := 18)
      (creates_calling (by decide +kernel) (by decide +kernel) (by decide +kernel) (by decide +kernel))
      (by decide +kernel) (.cons (step_slice (by decide +kernel) (by decide +kernel)) .nil)
      (answers_calling (c := lateChild) (by decide +kernel) (by decide +kernel) (by decide +kernel))
  · exact hbetween (p := firstPid)
      (answers_calling (by decide +kernel) (by decide +kernel) (by decide +kernel)) .nil
      (answers_calling (c := lateBoot.calling 6 0 0 0) (by decide +kernel) (by decide +kernel)
        (by decide +kernel))

/-- The child has ended; its pcb still has its time on it. -/
def lateEnd : Config := lateChild.calling 2 0 0 0

/-- The next child has been dispatched. -/
def lateAgain : Config := (lateEnd.calling 1 0x20001000 0 0).slice

theorem lateEnd_path : ∃ l, (nucleus smallMachine).Path lateBoot l lateEnd :=
  ⟨_, .cons (step_calling 1 0x20001000 0 0 (by decide +kernel) (by decide) (by decide +kernel))
    (.cons (step_slice (by decide +kernel) (by decide +kernel))
      (.cons (step_calling 2 0 0 0 (by decide +kernel) (by decide) (by decide +kernel)) .nil))⟩

/-- The second process to use a pcb is told the time of the first one. -/
theorem not_always_cpuTime :
    ¬ ∀ (M : Machine) (c c₁ c₂ c₃ : Config) (e e' : Entry) (l : List (Entry × Config)) (p : Pid)
      (v : Word), (nucleus M).Reachable c → Steady c.kernel.data.clock →
      Creates M p c e c₁ → (nucleus M).Path c₁ l c₂ → Answers M p c₂ e' c₃ v →
      v.toNat + c.kernel.data.now ≤ c₂.kernel.data.now := by
  intro hall
  obtain ⟨l, hpath⟩ := lateEnd_path
  have hclock : lateEnd.kernel.data.clock = lateClock := by
    rcases path_clock lateBoot_reachable hpath with hdead | hclock
    · exact absurd hdead.current (by decide +kernel)
    · exact hclock.trans lateBoot_clock
  have hle := hall smallMachine lateEnd _ lateAgain _ _ _ _ 18 1000 (lateBoot_reachable.path hpath)
    (hclock ▸ lateClock_steady)
    (creates_calling (by decide +kernel) (by decide +kernel) (by decide +kernel) (by decide +kernel))
    (.cons (step_slice (by decide +kernel) (by decide +kernel)) .nil)
    (answers_calling (c := lateAgain) (by decide +kernel) (by decide +kernel) (by decide +kernel))
  exact absurd hle (by decide +kernel)

end Kaya
