import Kaya.Phase2.Idle
import Kaya.Phase2.Semaphores

open Links Exec

namespace Kaya

namespace Semaphore

variable {s : Semaphore} {p : Pid} {l : List Pid}

/-- As many processes wait as the value is below zero. -/
def Balanced (s : Semaphore) : Prop := s.waiting.length = (-s.value.toInt).toNat

/-- No process waits twice, so that there are no more than pcbs. -/
theorem Balanced.le_value (hs : s.Balanced) (hnodup : s.waiting.Nodup) :
    -(MAXPROC : Int) ≤ s.value.toInt := by
  have hlen : s.waiting.length ≤ MAXPROC := nodup_length_le hnodup
  unfold Balanced at hs
  omega

theorem toInt_sub_one (hmin : -(2 ^ 31 : Int) < s.value.toInt) :
    (s.value - 1).toInt = s.value.toInt - 1 := by
  have hone : (1 : Word).toInt = 1 := by decide
  have hlt := BitVec.toInt_lt (x := s.value)
  rw [BitVec.toInt_sub, hone, Int.bmod_def]
  split <;> omega

theorem toInt_add_ofNat {k : Nat} (hmax : s.value.toInt + k < 2 ^ 31) :
    (s.value + BitVec.ofNat 32 k).toInt = s.value.toInt + k := by
  have hle := BitVec.le_toInt (x := s.value)
  have hk : (BitVec.ofNat 32 k).toInt = Int.bmod k (2 ^ 32) := BitVec.toInt_ofNat k
  rw [BitVec.toInt_add, hk, Int.add_bmod_bmod, Int.bmod_def]
  split <;> omega

/-- A P blocks if and only if the value is not positive. -/
theorem Balanced.wait (hs : s.Balanced) (hnodup : s.waiting.Nodup) :
    (s.wait p).Balanced ∧
      (s.wait p).waiting = if s.value.toInt ≤ 0 then s.waiting ++ [p] else s.waiting := by
  have hlow := hs.le_value hnodup
  have hmax : MAXPROC = 20 := rfl
  have hsub := toInt_sub_one (s := s) (by omega)
  unfold Balanced at hs ⊢
  by_cases hle : s.value.toInt ≤ 0
  · rw [wait_block (by omega), if_pos hle]
    refine ⟨?_, rfl⟩
    simp only [List.length_append, List.length_singleton, hsub]
    omega
  · rw [wait_pass (by omega), if_neg hle]
    refine ⟨?_, rfl⟩
    simp only [hsub]
    omega

/-- A V ends the wait of the process that has waited longest. -/
theorem Balanced.signal (hs : s.Balanced) (hmax : s.value.toInt < 2 ^ 31 - 1) :
    s.signal.Balanced ∧ s.signal.waiting = s.waiting.tail ∧
      ((s.value + 1).toInt ≤ 0 ∨ s.waiting = []) := by
  have hadd : (s.value + 1).toInt = s.value.toInt + 1 :=
    toInt_add_ofNat (k := 1) (by omega)
  unfold Balanced at hs ⊢
  by_cases hle : (s.value + 1).toInt ≤ 0
  · rw [signal_wake hle]
    refine ⟨?_, rfl, Or.inl hle⟩
    simp only [List.length_tail, hadd]
    omega
  · have hnone : s.waiting = [] := by
      rw [← List.length_eq_zero_iff]
      omega
    rw [signal_nobody (Or.inr hnone)]
    refine ⟨?_, by simp [hnone], Or.inr hnone⟩
    simp only [hadd]
    omega

/-- Killing any of the waiting processes, wherever they stand in the queue. -/
theorem Balanced.kill (hs : s.Balanced) : (s.kill l).Balanced := by
  have hsplit : s.waiting.length =
      s.waiting.countP (· ∈ l) + (s.waiting.filter (· ∉ l)).length := by
    rw [List.countP_eq_length_filter, List.length_eq_length_filter_add (· ∈ l)]
    simp
  have hmax := BitVec.toInt_lt (x := s.value)
  unfold Balanced at hs ⊢
  have hadd := toInt_add_ofNat (s := s) (k := s.waiting.countP (· ∈ l)) (by omega)
  simp only [Semaphore.kill, hadd]
  omega

end Semaphore

variable {M : Machine} {q : Queues} {d : Data} {n : Nucleus} {next : Next} {c c' : Config}
  {e : Entry} {a : Word} {p : Pid}

/-- P and V are made on semaphores that the range test does not take for those of the
nucleus. -/
def Entry.Outside (M : Machine) (e : Entry) : Prop :=
  e.calls VERHOGEN ∨ e.calls PASSEREN → ¬ deviceRange M (e.state.s_reg s_a1)

/-- A P or a V is made on the semaphore. -/
def Entry.Uses (a : Word) (e : Entry) : Prop :=
  (e.calls VERHOGEN ∨ e.calls PASSEREN) ∧ e.state.s_reg s_a1 = a

instance (a : Word) (e : Entry) : Decidable (e.Uses a) := inferInstanceAs (Decidable (_ ∧ _))

/-- Neither processes nor the states that are stored for them when they trap touch
the semaphore. -/
structure Undisturbed (a : Word) (c : Config) (e : Entry) : Prop where
  mem : e.mem a = c.kernel.data.mem a
  areas : ∀ p, c.kernel.data.currentProcess = .to p → ∀ (type : TrapType) (f : Field),
    f.addr (c.kernel.heap.pcb_states p type .OLD) ≠ a

/-- A V on the largest value. -/
def Overflows (a : Word) (c : Config) (e : Entry) : Prop :=
  e.calls VERHOGEN ∧ e.state.s_reg s_a1 = a ∧ (c.kernel.data.mem a).toInt = 2 ^ 31 - 1

instance : Decidable (e.Outside M) := inferInstanceAs (Decidable (_ → _))

instance : Decidable (Overflows a c e) := inferInstanceAs (Decidable (_ ∧ _ ∧ _))

/-- The words that the states of the current process are stored to. -/
def Config.areaWords (c : Config) : List Word :=
  match c.kernel.data.currentProcess with
  | .to p => [TrapType.TLBTRAP, .PROGTRAP, .SYSTRAP].flatMap fun type =>
      Field.all.map fun f => f.addr (c.kernel.heap.pcb_states p type .OLD)
  | _ => []

theorem undisturbed_iff :
    e.mem a = c.kernel.data.mem a ∧ c.areaWords.contains a = false ↔ Undisturbed a c e := by
  rw [List.contains_eq_mem, decide_eq_false_iff_not]
  constructor
  · rintro ⟨hmem, hareas⟩
    refine ⟨hmem, fun p hp type f heq => hareas ?_⟩
    simp only [Config.areaWords, hp, List.mem_flatMap, List.mem_map]
    exact ⟨type, by cases type <;> simp, f, f.mem_all, heq⟩
  · rintro ⟨hmem, hareas⟩
    refine ⟨hmem, fun hword => ?_⟩
    unfold Config.areaWords at hword
    split at hword
    · rename_i p hp
      obtain ⟨type, -, hword⟩ := List.mem_flatMap.mp hword
      obtain ⟨f, -, heq⟩ := List.mem_map.mp hword
      exact hareas p hp type f heq
    · exact absurd hword List.not_mem_nil

instance : Decidable (Undisturbed a c e) := decidable_of_iff _ undisturbed_iff

theorem Machine.not_onDevice_semEnd : ¬ M.onDevice M.semEnd := by
  rintro ⟨i, hi, heq⟩
  have hnat := congrArg BitVec.toNat heq
  rw [M.semAdd_toNat hi.le, show M.semEnd.toNat = _ from M.semAdd_toNat le_rfl] at hnat
  omega

/-- The nucleus does its own Ps and Vs on its own semaphores. -/
theorem Legal.semaphoreOf_ne {number : Int} (hlegal : Legal M c e) (hcalls : e.calls number)
    (hdevice : ¬ M.onDevice a) (huses : ¬ e.Uses a) :
    semaphoreOf M (e.enter c.kernel.data).advance number ≠ some a := by
  unfold semaphoreOf
  have hargs := hlegal.arguments hcalls.1 hcalls.2.1
  split
  · rename_i hnumber
    rw [Entry.advance_arg hcalls.1]
    rintro ⟨rfl⟩
    refine huses ⟨?_, rfl⟩
    rcases hnumber with rfl | rfl
    · exact Or.inl hcalls
    · exact Or.inr hcalls
  · split
    · rintro ⟨rfl⟩
      exact hdevice Machine.onDevice_clock
    · split
      · rename_i hnumber
        subst hnumber
        rintro ⟨rfl⟩
        exact hdevice (hargs.onDevice hcalls)
      · nofun

theorem pendingLine_le {cause : Word} {line : Nat} (hline : pendingLine cause = some line) :
    line ≤ TERMINT := by
  unfold pendingLine deviceLine at hline
  split_ifs at hline <;> (obtain rfl := Option.some.inj hline; decide)

/-- Interrupts leave the semaphores alone that are not the nucleus's own. -/
theorem Interrupt.semaphore_other {cause : Word} (hn : Nucleus.Settled M ⟨q, d⟩)
    (hact : Interrupt M q d cause n next) (hdevice : ¬ M.onDevice a) :
    n.semaphore a = Nucleus.semaphore a ⟨q, d⟩ := by
  have hclock : a ≠ clockSemaphore M := fun heq => hdevice (heq ▸ Machine.onDevice_clock)
  rw [hact.semaphore hn hclock, if_neg]
  rintro ⟨line, hline, -, rfl⟩
  exact hdevice (Machine.onDevice_deviceSemaphore (pendingLine_le hline))

/-- A queue stays empty on which no P is made. -/
theorem Handles.nobody (hn : Nucleus.Settled M ⟨q, e.enter c.kernel.data⟩) (hlegal : Legal M c e)
    (hact : Handles M q (e.enter c.kernel.data) e.exception n next) (hdevice : ¬ M.onDevice a)
    (huses : ¬ e.Uses a) (hnone : q.waiting a = []) : n.queues.waiting a = [] := by
  have hkilled : ∀ {d : Data} {s : Semaphore}, Nucleus.Terminated M q d a s → s.waiting = [] := by
    rintro d s ⟨p, l, -, -, rfl⟩
    split <;> simp [hnone, Nucleus.semaphore, Semaphore.kill]
  rcases hact.cases_enter with ⟨number, hcalls, -, -, hact⟩ | ⟨type, hraises, hact⟩ | ⟨hex, hact⟩
  · have hn' : Nucleus.Settled M ⟨q, (e.enter c.kernel.data).advance⟩ := hn.congr rfl rfl
    rcases hact.semaphore_other hn' (hlegal.semaphoreOf_ne hcalls hdevice huses) with hsame | ⟨-, hkill⟩
    · exact (congrArg Semaphore.waiting hsame).trans hnone
    · exact hkilled hkill
  · cases hact with
    | die _ _ _ _ =>
      rw [Queues.waiting_erase hn.wf, hnone]
      rfl
    | _ => exact hnone
  · have hn' : Nucleus.Settled M ⟨q, (e.enter c.kernel.data).stopClock⟩ := hn.congr rfl rfl
    have hsame := hact.semaphore_other hn' hdevice
    exact (congrArg Semaphore.waiting hsame).trans hnone

/-- What a step does to a semaphore that is not the nucleus's own. -/
inductive SemaphoreStep (a : Word) (c : Config) (e : Entry) (c' : Config) : Prop where
  | signal : e.calls VERHOGEN → e.state.s_reg s_a1 = a →
      c'.kernel.semaphore a = (c.kernel.semaphore a).signal →
      c'.kernel.heap.readyList = c.kernel.heap.readyList ++
        (if ((c.kernel.semaphore a).value + 1).toInt ≤ 0 then (c.kernel.heap.blockedOn a).take 1
          else []) → SemaphoreStep a c e c'
  | wait {p : Pid} : e.calls PASSEREN → e.state.s_reg s_a1 = a → c.kernel.data.currentProcess = .to p →
      c'.kernel.semaphore a = (c.kernel.semaphore a).wait p → SemaphoreStep a c e c'
  | kill {l : List Pid} : ¬ e.Uses a → c'.kernel.semaphore a = (c.kernel.semaphore a).kill l →
      SemaphoreStep a c e c'
  | same : ¬ e.Uses a → c'.kernel.semaphore a = c.kernel.semaphore a → SemaphoreStep a c e c'

/-- A V returns to its caller. -/
theorem Service.signal_stops (hact : Service M q d 3 n next) : ∃ y, next = .stop y := by
  generalize hnumber : (3 : Int) = number at hact
  cases hact with
  | signalFault _ => exact ⟨_, rfl⟩
  | signal _ _ _ => exact ⟨_, rfl⟩
  | signalWake _ _ _ _ => exact ⟨_, rfl⟩
  | nobody _ _ => exact ⟨_, rfl⟩
  | _ => omega

/-- Where no P or V is made, only termination changes a semaphore. -/
theorem Handles.semaphore_other (hn : Nucleus.Settled M ⟨q, e.enter c.kernel.data⟩)
    (hstates : c.kernel.heap.pcb_states = q.states)
    (hact : Handles M q (e.enter c.kernel.data) e.exception n next) (hlegal : Legal M c e)
    (hw : M.writable a = true) (ha : ¬ deviceRange M a) (huses : ¬ e.Uses a)
    (hundisturbed : Undisturbed a c e) :
    n.semaphore a = Nucleus.semaphore a ⟨q, e.enter c.kernel.data⟩ ∨
      ∃ l, n.semaphore a = (Nucleus.semaphore a ⟨q, e.enter c.kernel.data⟩).kill l := by
  have hdevice : ¬ M.onDevice a := fun h => ha ((deviceRange_iff hw).mpr (Or.inl h))
  have hkilled : ∀ {d : Data} {s : Semaphore}, d.mem = e.mem → Nucleus.Terminated M q d a s →
      ∃ l, s = (Nucleus.semaphore a ⟨q, e.enter c.kernel.data⟩).kill l := by
    rintro d s hmem ⟨p, l, -, -, rfl⟩
    refine ⟨l, ?_⟩
    rw [if_neg ha]
    unfold Nucleus.semaphore
    rw [hmem]
    rfl
  rcases hact.cases_enter with ⟨number, hcalls, -, -, hact⟩ | ⟨type, hraises, hact⟩ | ⟨hex, hact⟩
  · have hn' : Nucleus.Settled M ⟨q, (e.enter c.kernel.data).advance⟩ := hn.congr rfl rfl
    rcases hact.semaphore_other hn' (hlegal.semaphoreOf_ne hcalls hdevice huses) with hsame | ⟨-, hkill⟩
    · exact Or.inl hsame
    · exact Or.inr (hkilled rfl hkill)
  · have hpass : (e.pass c.kernel.data).currentProcess = c.kernel.data.currentProcess ∧
        (e.pass c.kernel.data).processCount = c.kernel.data.processCount ∧
        (e.pass c.kernel.data).mem = e.mem := by
      unfold Entry.pass
      split <;> exact ⟨rfl, rfl, rfl⟩
    have hn' : Nucleus.Settled M ⟨q, e.pass c.kernel.data⟩ := hn.congr hpass.1 hpass.2.1
    have hapart : ∀ p, (e.pass c.kernel.data).currentProcess = .to p → ∀ f : Field,
        f.addr (q.states p type .OLD) ≠ a := by
      intro p hcur f
      rw [← hstates]
      exact hundisturbed.areas p (hpass.1 ▸ hcur) type f
    rcases hact.semaphore_other hn' hapart with hsame | ⟨-, hkill⟩
    · left
      rw [hsame]
      unfold Nucleus.semaphore
      rw [hpass.2.2]
      rfl
    · exact Or.inr (hkilled hpass.2.2 hkill)
  · have hn' : Nucleus.Settled M ⟨q, (e.enter c.kernel.data).stopClock⟩ := hn.congr rfl rfl
    have hsame := hact.semaphore_other hn' hdevice
    exact Or.inl hsame

/-- A P or a V that is made on a semaphore. -/
theorem Service.semaphore_uses {call : Int} (hn : Nucleus.Settled M ⟨q, d⟩)
    (hact : Service M q d call n next) (hw : M.writable (d.arg s_a1) = true)
    (hcur : d.currentProcess ≠ .null) :
    (call = 3 → n.semaphore (d.arg s_a1) = (Nucleus.semaphore (d.arg s_a1) ⟨q, d⟩).signal ∧
      (next.finish n).2.queues.ready = q.ready ++ (if (d.mem (d.arg s_a1) + 1).toInt ≤ 0 then
        (q.waiting (d.arg s_a1)).take 1 else [])) ∧
    (call = 4 → ∃ p, d.currentProcess = .to p ∧
      n.semaphore (d.arg s_a1) = (Nucleus.semaphore (d.arg s_a1) ⟨q, d⟩).wait p) := by
  constructor
  · rintro rfl
    obtain ⟨y, rfl⟩ := hact.signal_stops
    exact hact.semaphore_signal hn hw
  · rintro rfl
    rcases hcase : d.currentProcess with - | - | p
    · exact absurd hcase hcur
    · exact absurd hcase hn.current
    · exact ⟨p, rfl, (hact.semaphore_wait hn (Or.inl rfl) (by simp [semaphoreOf]) hw hcase).1⟩

/-- No other code of the nucleus changes a semaphore than P, V and termination. -/
theorem Config.Exact.semaphore_step (hc : c.Exact M q) (hstep : (nucleus M).step c e c')
    (hw : M.writable a = true) (ha : ¬ deviceRange M a) (hundisturbed : Undisturbed a c e) :
    SemaphoreStep a c e c' := by
  have hlegal := hstep.1
  have hn : Nucleus.Settled M ⟨q, e.enter c.kernel.data⟩ := hc.settled.congr rfl rfl
  have hsem : Nucleus.semaphore a ⟨q, e.enter c.kernel.data⟩ = c.kernel.semaphore a := by
    unfold Nucleus.semaphore Kernel.semaphore
    rw [hc.represents.blockedOn_eq, ← hundisturbed.mem]
    rfl
  have hsome : e.exception = .SYSCALL → c.kernel.data.currentProcess ≠ .null := by
    intro hex hnull
    have hinterrupt := hc.interrupt hlegal hnull
    rw [hex] at hinterrupt
    exact absurd hinterrupt nofun
  rcases step_spec hstep hc.represents hc.settled with
    ⟨n, next, hfollows⟩ | ⟨hex, -, -, -, hderails⟩
  · have hafter : c'.kernel.semaphore a = n.semaphore a := hfollows.semaphore
    by_cases huses : e.Uses a
    · obtain ⟨hcalls, rfl⟩ := huses
      have hex : e.exception = .SYSCALL := hcalls.elim And.left And.left
      have hn' : Nucleus.Settled M ⟨q, (e.enter c.kernel.data).advance⟩ := hn.congr rfl rfl
      have harg : (e.enter c.kernel.data).advance.arg s_a1 = e.state.s_reg s_a1 :=
        Entry.advance_arg hex
      rcases hcalls with hcalls | hcalls
      · have hact := hfollows.handles.serves hcalls (by decide) (by decide)
        have hdone := (hact.semaphore_uses hn' (by rwa [harg]) (hsome hex)).1 rfl
        rw [harg] at hdone
        refine .signal hcalls rfl (hafter.trans (hdone.1.trans (congrArg _ hsem))) ?_
        rw [hfollows.represents.readyList_eq, hdone.2, hc.represents.readyList_eq,
          hc.represents.blockedOn_eq, ← hsem]
        rfl
      · have hact := hfollows.handles.serves hcalls (by decide) (by decide)
        have hdone := (hact.semaphore_uses hn' (by rwa [harg]) (hsome hex)).2 rfl
        rw [harg] at hdone
        obtain ⟨p, hcur, hwait⟩ := hdone
        exact .wait hcalls rfl hcur (hafter.trans (hwait.trans (congrArg _ hsem)))
    · rcases hfollows.handles.semaphore_other hn hc.represents.states hlegal hw ha huses
        hundisturbed with hsame | ⟨l, hkill⟩
      · exact .same huses (hafter.trans (hsame.trans hsem))
      · exact .kill huses (hafter.trans (hkill.trans (congrArg _ hsem)))
  · refine absurd ?_ (hsome hex)
    generalize callNumber (e.enter c.kernel.data) = call at hderails
    cases hderails with
    | create hcur _ _ => exact hcur
    | clock hcur _ _ _ _ _ => exact hcur

theorem deviceRange_semEnd : deviceRange M M.semEnd := by
  refine ⟨?_, le_refl M.semEnd⟩
  rw [BitVec.le_def, show M.semEnd.toNat = _ from M.semAdd_toNat le_rfl,
    show (M.semAdd 0).toNat = _ from M.semAdd_toNat (i := 0) (by decide)]
  omega

/-- Nobody waits on the `int` behind the semaphores if Ps are made outside the range. -/
theorem Config.Exact.step_outside (hc : c.Exact M q) (hstep : (nucleus M).step c e c')
    (houtside : e.Outside M) (hnone : c.kernel.heap.blockedOn M.semEnd = []) :
    ∃ q', c'.Exact M q' ∧ c'.kernel.heap.blockedOn M.semEnd = [] := by
  have hkeeps : ¬ Drifts M c e := by
    rintro ⟨p, x, -, -, -, hx⟩
    simp [hnone] at hx
  have huses : ¬ e.Uses M.semEnd := by
    rintro ⟨hcalls, harg⟩
    exact houtside hcalls (harg ▸ deviceRange_semEnd)
  have hn : Nucleus.Settled M ⟨q, e.enter c.kernel.data⟩ := hc.settled.congr rfl rfl
  rw [hc.represents.blockedOn_eq] at hnone
  obtain ⟨q', hexact, -⟩ := hc.step hstep hkeeps
  refine ⟨q', hexact, ?_⟩
  rcases step_spec hstep hc.represents hc.settled with
    ⟨n, next, hfollows⟩ | ⟨hex, -, -, hstop, hderails⟩
  · have hwaiting := hfollows.handles.nobody hn hstep.1 Machine.not_onDevice_semEnd huses hnone
    exact (congrArg Semaphore.waiting hfollows.semaphore).trans hwaiting
  · rcases hexact.current (Config.Dead.of_derails hstop hderails).current with h | h | h
    · simp [hstop] at h
    · simp [hstop] at h
    · simp [hstop] at h

theorem exact_of_outside (hc : ((nucleus M).restrict fun _ e _ => e.Outside M).Reachable c) :
    ∃ q, c.Exact M q ∧ c.kernel.heap.blockedOn M.semEnd = [] := by
  refine hc.invariant (I := fun c => ∃ q, c.Exact M q ∧ c.kernel.heap.blockedOn M.semEnd = [])
    (fun c hinit => ?_) fun c e c' ⟨q, hexact, hnone⟩ hstep => ?_
  · obtain ⟨-, hrep, hbooted⟩ := nucleus_init hinit
    exact ⟨_, hbooted.exact hrep, hrep.blockedOn_eq _⟩
  · obtain ⟨q', hexact', hnone'⟩ := hexact.step_outside hstep.1 hstep.2 hnone
    exact ⟨q', hexact', hnone'⟩

/-- The condition on the steps of a run. -/
structure Proper (M : Machine) (a : Word) (c : Config) (e : Entry) : Prop
    extends Undisturbed a c e where
  outside : e.Outside M
  overflow : ¬ Overflows a c e

instance : Decidable (Proper M a c e) :=
  decidable_of_iff (Undisturbed a c e ∧ e.Outside M ∧ ¬ Overflows a c e)
    ⟨fun h => ⟨h.1, h.2.1, h.2.2⟩, fun h => ⟨h.toUndisturbed, h.outside, h.overflow⟩⟩

/-- How P and V serve the semaphore. -/
structure SemaphoreServed (a : Word) (c : Config) (e : Entry) (c' : Config) : Prop where
  signal : e.calls VERHOGEN → e.state.s_reg s_a1 = a →
    c'.kernel.heap.readyList = c.kernel.heap.readyList ++ (c.kernel.heap.blockedOn a).take 1 ∧
      c'.kernel.heap.blockedOn a = (c.kernel.heap.blockedOn a).tail
  wait : e.calls PASSEREN → e.state.s_reg s_a1 = a → ∃ p, c.kernel.data.currentProcess = .to p ∧
    p ∉ c.kernel.heap.blockedOn a ∧ c'.kernel.heap.blockedOn a =
      if (c.kernel.data.mem a).toInt ≤ 0 then c.kernel.heap.blockedOn a ++ [p]
      else c.kernel.heap.blockedOn a

/-- A step keeps the balance, and P and V do what they are for. -/
theorem Config.Exact.served (hc : c.Exact M q) (hstep : (nucleus M).step c e c')
    (hw : M.writable a = true) (ha : ¬ deviceRange M a) (hproper : Proper M a c e)
    (hbalanced : (c.kernel.semaphore a).Balanced) :
    (c'.kernel.semaphore a).Balanced ∧ SemaphoreServed a c e c' := by
  have hwaiting : (c.kernel.semaphore a).waiting = q.waiting a := hc.represents.blockedOn_eq a
  have hnodup : (c.kernel.semaphore a).waiting.Nodup := by
    rw [hwaiting]
    exact hc.settled.wf.waiting_nodup a
  have hother : ∀ {s}, ¬ e.Uses a → c'.kernel.semaphore a = s → s.Balanced →
      (c'.kernel.semaphore a).Balanced ∧ SemaphoreServed a c e c' := by
    rintro s huses rfl hafter
    exact ⟨hafter, fun hcalls harg => absurd ⟨Or.inl hcalls, harg⟩ huses,
      fun hcalls harg => absurd ⟨Or.inr hcalls, harg⟩ huses⟩
  cases hc.semaphore_step hstep hw ha hproper.toUndisturbed with
  | signal hcalls harg hafter hready =>
    have hmax : (c.kernel.semaphore a).value.toInt < 2 ^ 31 - 1 := by
      have hlt := BitVec.toInt_lt (x := (c.kernel.semaphore a).value)
      have hne : (c.kernel.semaphore a).value.toInt ≠ 2 ^ 31 - 1 :=
        fun heq => hproper.overflow ⟨hcalls, harg, heq⟩
      omega
    obtain ⟨hafter', htail, hwakes⟩ := hbalanced.signal hmax
    rw [hafter]
    refine ⟨hafter', fun _ _ => ⟨hready.trans (congrArg _ ?_), ?_⟩, fun hcalls' _ => ?_⟩
    · rcases hwakes with hwakes | hnone
      · rw [if_pos hwakes]
      · rw [show c.kernel.heap.blockedOn a = [] from hnone]
        simp
    · exact (congrArg Semaphore.waiting hafter).trans htail
    · exact absurd hcalls' (Entry.calls_ne hcalls (by decide))
  | @wait p hcalls harg hcur hafter =>
    obtain ⟨hafter', hblocks⟩ := hbalanced.wait (p := p) hnodup
    rw [hafter]
    refine ⟨hafter', fun hcalls' _ => ?_, fun _ _ => ⟨p, hcur, fun hp => ?_, ?_⟩⟩
    · exact absurd hcalls' (Entry.calls_ne hcalls (by decide))
    · refine hc.settled.unplaced p hcur (Queues.mem_placed.mpr (Or.inr (Or.inr ?_)))
      rw [hc.represents.blockedOn_eq] at hp
      exact Queues.mem_values_of_mem_waiting hp
    · exact (congrArg Semaphore.waiting hafter).trans hblocks
  | kill huses hafter => exact hother huses hafter hbalanced.kill
  | same huses hafter => exact hother huses hafter hbalanced

/-- In every run in which the semaphore is changed by P, V and termination only and no
V wraps around, as many processes are blocked as its value is below zero, a V wakes
the one that has waited longest and a P blocks its caller if the value is not positive. -/
theorem semaphore_of_run {c₀ : Config} {l : List (Entry × Config)} (hw : M.writable a = true)
    (ha : ¬ deviceRange M a)
    (hc₀ : ((nucleus M).restrict fun _ e _ => e.Outside M).Reachable c₀)
    (hvalue : 0 ≤ (c₀.kernel.data.mem a).toInt) (hnone : c₀.kernel.heap.blockedOn a = [])
    (hpath : ((nucleus M).restrict fun c e _ => Proper M a c e).Path c₀ l c) :
    ((c.kernel.heap.blockedOn a).length : Int) = max 0 (-(c.kernel.data.mem a).toInt) ∧
      ∀ e c', (nucleus M).step c e c' → Proper M a c e → SemaphoreServed a c e c' := by
  have hstart : (c₀.kernel.semaphore a).Balanced := by
    show (c₀.kernel.heap.blockedOn a).length = (-(c₀.kernel.data.mem a).toInt).toNat
    rw [hnone, List.length_nil]
    omega
  obtain ⟨q₀, hexact₀, hend₀⟩ := exact_of_outside hc₀
  have hrun : ∃ q, c.Exact M q ∧ (c.kernel.semaphore a).Balanced := by
    clear hvalue hnone hc₀
    induction hpath generalizing q₀ with
    | nil => exact ⟨q₀, hexact₀, hstart⟩
    | cons hstep _ ih =>
      obtain ⟨hstep, hproper⟩ := hstep
      obtain ⟨q₁, hexact₁, hend₁⟩ := hexact₀.step_outside hstep hproper.outside hend₀
      exact ih (hexact₀.served hstep hw ha hproper hstart).1 q₁ hexact₁ hend₁
  obtain ⟨q, hexact, hbalanced⟩ := hrun
  refine ⟨?_, fun e c' hstep hproper => (hexact.served hstep hw ha hproper hbalanced).2⟩
  have hlength : (c.kernel.heap.blockedOn a).length = (-(c.kernel.data.mem a).toInt).toNat :=
    hbalanced
  omega

/-- The small machine, booted with an `int` in memory. -/
def semaphoreBoot (v : Word) : Config :=
  boot smallMachine (fun b => if b = 0x20003000 then v else 0) fun _ => 0

/-- A process takes a semaphore that is one, and its child waits for it. -/
def takingCues : List Cue :=
  [.call 1 0x20001000 0 0, .call 4 0x20003000 0 0, .slice, .call 4 0x20003000 0 0]

abbrev properScript : Script Config Entry Cue :=
  smallScript.restrict fun c e _ => Proper smallMachine 0x20003000 c e

theorem properScript_follows : properScript.Follows
    ((nucleus smallMachine).restrict fun c e _ => Proper smallMachine 0x20003000 c e) :=
  smallScript_follows.restrict

def smallContended : Config := properScript.play (semaphoreBoot 1) takingCues

/-- The process gives the semaphore back to its child. -/
theorem semaphore_of_run_small :
    smallContended.kernel.heap.blockedOn 0x20003000 = [18] ∧
    ((smallContended.kernel.heap.blockedOn 0x20003000).length : Int) =
      max 0 (-(smallContended.kernel.data.mem 0x20003000).toInt) ∧
    SemaphoreServed 0x20003000 smallContended (smallContended.call 3 0x20003000 0 0)
      ((Cue.call 3 0x20003000 0 0).next smallContended) := by
  have hpath : ((nucleus smallMachine).restrict fun c e _ => Proper smallMachine 0x20003000 c e).Path
      (semaphoreBoot 1) (properScript.events (semaphoreBoot 1) takingCues) smallContended :=
    properScript_follows.path (by decide +kernel)
  obtain ⟨hstep, hproper⟩ :=
    properScript_follows smallContended (.call 3 0x20003000 0 0) (by decide +kernel)
  obtain ⟨hlength, hserved⟩ := semaphore_of_run (M := smallMachine) (by decide +kernel)
    (by decide +kernel) (.init (boot_init _ _ _)) (by decide +kernel) (by decide +kernel) hpath
  exact ⟨by decide +kernel, hlength, hserved _ _ hstep hproper⟩

/-- The first process does a V on the largest value. -/
theorem not_always_balanced : ¬ ∀ (M : Machine) (a : Word) (c₀ c : Config)
    (l : List (Entry × Config)), M.writable a = true → ¬ deviceRange M a →
    ((nucleus M).restrict fun _ e _ => e.Outside M).Reachable c₀ →
    0 ≤ (c₀.kernel.data.mem a).toInt → c₀.kernel.heap.blockedOn a = [] →
    ((nucleus M).restrict fun c e _ => e.Outside M ∧ Undisturbed a c e).Path c₀ l c →
    ((c.kernel.heap.blockedOn a).length : Int) = max 0 (-(c.kernel.data.mem a).toInt) := by
  intro hall
  have hfollows := smallScript_follows.restrict (P := fun c e _ =>
    e.Outside smallMachine ∧ Undisturbed 0x20003000 c e)
  have hpath := hfollows.path (s := semaphoreBoot 0x7FFFFFFF) (l := [.call 3 0x20003000 0 0])
    (by decide +kernel)
  have hfalse := hall smallMachine 0x20003000 _ _ _ (by decide +kernel) (by decide +kernel)
    (.init (boot_init _ _ _)) (by decide +kernel) (by decide +kernel) hpath
  revert hfalse
  decide +kernel

end Kaya
