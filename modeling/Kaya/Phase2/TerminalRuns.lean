import Kaya.Phase2.Terminals

open Links Exec

namespace Kaya

variable {M : Machine} {q q' : Queues} {d : Data} {n : Nucleus} {next : Next} {c c' : Config}
  {e : Entry} {a b : Word} {p x : Pid} {device line : Nat} {sub : SubDevice}

theorem SubDevice.direction_le : sub.direction ≤ 1 := by cases sub <;> decide

theorem terminalSemaphore_eq : terminalSemaphore M device sub =
    M.semAdd (BitVec.ofNat 32 (terminalReg device + DEVPERINT * sub.direction)) := by
  unfold terminalSemaphore terminalReg
  rw [waitSemaphore_eq (by decide)]
  congr 2
  simp only [DEVPERINT, TERMINT, DEVNOSEM]
  omega

theorem terminalReg_lt (sub : SubDevice) (hdevice : device < DEVPERINT) :
    terminalReg device + DEVPERINT * sub.direction < TOTALSEM - 1 := by
  have hdirection := sub.direction_le
  simp only [terminalReg, DEVPERINT, TERMINT, DEVNOSEM, TOTALSEM] at *
  omega

theorem onDevice_terminalSemaphore (sub : SubDevice) (hdevice : device < DEVPERINT) :
    M.onDevice (terminalSemaphore M device sub) := by
  refine ⟨_, ?_, terminalSemaphore_eq⟩
  have hlt := terminalReg_lt sub hdevice
  omega

theorem semAdd_eq_terminalSemaphore {i : Nat} (hi : i < TOTALSEM) (hdevice : device < DEVPERINT) :
    M.semAdd (BitVec.ofNat 32 i) = terminalSemaphore M device sub ↔
      i = terminalReg device + DEVPERINT * sub.direction := by
  have hlt := terminalReg_lt sub hdevice
  rw [terminalSemaphore_eq]
  constructor
  · intro heq
    have hnat := congrArg BitVec.toNat heq
    rw [M.semAdd_toNat (by omega), M.semAdd_toNat (by omega)] at hnat
    omega
  · rintro rfl
    rfl

theorem terminalSemaphore_ne_clock (sub : SubDevice) (hdevice : device < DEVPERINT) :
    terminalSemaphore M device sub ≠ clockSemaphore M := by
  have hlt := terminalReg_lt sub hdevice
  intro heq
  have hclock := (semAdd_eq_terminalSemaphore (M := M) (i := 48) (by decide) hdevice).mp heq.symm
  simp only [TOTALSEM] at hlt
  omega

/-- A SYS8 for a terminal is one that does its P on the semaphore of that part. -/
theorem Entry.awaits_iff (hlegal : Legal M c e) (hcalls : e.calls WAITIO)
    (hdevice : device < DEVPERINT) : e.awaits device sub ↔
      ioSemaphore M (e.enter d).advance = terminalSemaphore M device sub := by
  have hargs := hlegal.arguments hcalls.1 hcalls.2.1
  obtain ⟨hlo, hhi, hdev, hdir⟩ := hargs.device hcalls.2.2
  have hdirection := sub.direction_le
  rw [hargs.ioSemaphore_eq hcalls, awaits, and_iff_right hcalls, channel, terminalChannel,
    Prod.mk.injEq]
  generalize (e.state.s_reg s_a1).toNat = line at *
  generalize (e.state.s_reg s_a2).toNat = number at *
  have hdir' : (e.state.s_reg s_a3).toNat = 0 ∨ (e.state.s_reg s_a3).toNat = 1 ∧ line = TERMINT := by
    rcases hdir with hdir | ⟨hdir, hline⟩
    · exact Or.inl (by rw [hdir]; rfl)
    · exact Or.inr ⟨by rw [hdir]; rfl, hline⟩
  generalize (e.state.s_reg s_a3).toNat = direction at *
  rw [semAdd_eq_terminalSemaphore _ hdevice]
  · simp only [terminalReg, DISKINT, TERMINT, DEVPERINT, DEVNOSEM] at *
    omega
  · simp only [DISKINT, TERMINT, DEVPERINT, DEVNOSEM, TOTALSEM] at *
    omega

/-- The interrupt is taken for the part of the terminal. -/
def Entry.Serves (e : Entry) (device : Nat) (sub : SubDevice) : Prop :=
  e.exception = .INTERRUPT ∧ pendingLine e.state.s_cause = some TERMINT ∧ device = 0 ∧
    sub = (e.devreg (terminalReg 0)).chosen

instance (e : Entry) (device : Nat) (sub : SubDevice) : Decidable (e.Serves device sub) :=
  inferInstanceAs (Decidable (_ ∧ _ ∧ _ ∧ _))

theorem acknowledged_eq (hex : e.exception = .INTERRUPT)
    (hline : pendingLine e.state.s_cause = some line) (hlo : DISKINT ≤ line) :
    (acknowledged c e).map Prod.fst = some (deviceIndex (e.enter c.kernel.data) line,
      ackOffset (e.enter c.kernel.data) line (deviceIndex (e.enter c.kernel.data) line)) := by
  have hrun : (acknowledging line).run (e.enter c.kernel.data) = .ok
      ((deviceIndex (e.enter c.kernel.data) line,
        ackOffset (e.enter c.kernel.data) line (deviceIndex (e.enter c.kernel.data) line)),
        ackStatus (e.enter c.kernel.data) line (deviceIndex (e.enter c.kernel.data) line))
      ((e.enter c.kernel.data).acked line (deviceIndex (e.enter c.kernel.data) line)) := by
    unfold acknowledging
    refine (Exec.run_bind_ok (show (getDeviceNumber line).run _ = .ok _ _ from rfl)).trans ?_
    exact (Exec.run_bind_ok acknowledge_spec).trans rfl
  unfold acknowledged
  simp only [hex, hline, hrun]
  rw [if_pos hlo]
  rfl

theorem ackOffset_eq (hline : line ≠ TERMINT) (i : Nat) : ackOffset d line i = 0 := by
  simp [ackOffset, hline]

theorem ackOffset_terminal (i : Nat) :
    ackOffset d TERMINT i = DEVPERINT * (d.devreg i).chosen.direction := by
  unfold ackOffset Device.chosen
  by_cases hready : (d.devreg i).statusOf .transmitter = READY
  · rw [if_pos hready, if_pos ⟨rfl, hready⟩]
    rfl
  · rw [if_neg hready, if_neg fun h => hready h.2]
    rfl

/-- With device 0 pending on the lines of printers and terminals, the device that is
taken is the part of terminal 0 that the handler chooses, or none of a terminal. -/
theorem serves_iff_index (sub : SubDevice) (hex : e.exception = .INTERRUPT)
    (hline : pendingLine e.state.s_cause = some line) (hlo : DISKINT ≤ line)
    (hfirst : PRNTINT ≤ line → (e.interrupt_dev (line - DEVNOSEM)).getLsbD 0 = true)
    (hdevreg : d.devreg = e.devreg) (hbitMap : d.interrupt_dev = e.interrupt_dev)
    (hdevice : device < DEVPERINT) :
    (e.Serves device sub ↔ deviceIndex d line + ackOffset d line (deviceIndex d line) =
      terminalReg device + DEVPERINT * sub.direction) ∧
    (e.Serves device sub ↔ deviceIndex d line = terminalReg device ∧
      ackOffset d line (deviceIndex d line) = DEVPERINT * sub.direction) := by
  have hhi := pendingLine_le hline
  have hindex := deviceIndex_eq (d := d) line
  have hdirection := sub.direction_le
  rw [hbitMap] at hindex
  unfold Entry.Serves
  rw [and_iff_right hex, hline, Option.some.injEq]
  by_cases hterm : line = TERMINT
  · subst hterm
    rw [if_pos ((and_DEVICEZERO _).mpr (hfirst (by decide)))] at hindex
    have hzero : deviceIndex d TERMINT = terminalReg 0 := hindex
    rw [hzero, ackOffset_terminal, hdevreg]
    have hsub : ∀ sub' : SubDevice, sub.direction = sub'.direction ↔ sub = sub' := by
      intro sub'
      cases sub <;> cases sub' <;> simp [SubDevice.direction]
    have hchosen := hsub (e.devreg (terminalReg 0)).chosen
    have hchosen_le := (e.devreg (terminalReg 0)).chosen.direction_le
    simp only [terminalReg, TERMINT, DEVPERINT, DEVNOSEM] at *
    rw [← hchosen, true_and]
    omega
  · rw [ackOffset_eq hterm]
    have hoffset : deviceIndex d line < terminalReg device := by
      rw [hindex]
      split
      · simp only [terminalReg, TERMINT, DEVPERINT, DEVNOSEM, DISKINT] at *
        omega
      · rename_i hbit
        have hlow : ¬ PRNTINT ≤ line := fun hle => hbit ((and_DEVICEZERO _).mpr (hfirst hle))
        simp only [terminalReg, TERMINT, DEVPERINT, DEVNOSEM, DISKINT, PRNTINT] at *
        omega
    simp only [hterm, false_and, false_iff]
    omega

theorem serves_iff_semaphore (hex : e.exception = .INTERRUPT)
    (hline : pendingLine e.state.s_cause = some line) (hlo : DISKINT ≤ line)
    (hfirst : PRNTINT ≤ line → (e.interrupt_dev (line - DEVNOSEM)).getLsbD 0 = true)
    (hdevreg : d.devreg = e.devreg) (hbitMap : d.interrupt_dev = e.interrupt_dev)
    (hdevice : device < DEVPERINT) :
    e.Serves device sub ↔ deviceSemaphore M d line = terminalSemaphore M device sub := by
  have hhi := pendingLine_le hline
  rw [(serves_iff_index sub hex hline hlo hfirst hdevreg hbitMap hdevice).1, deviceSemaphore,
    semAdd_eq_terminalSemaphore ?_ hdevice]
  rw [deviceIndex_eq]
  unfold ackOffset
  have hline : line ≤ 7 := hhi
  split <;> split <;> simp only [DEVPERINT, DEVNOSEM, TOTALSEM] <;> omega

/-- What the handler acknowledges is what it is taken for. -/
theorem acknowledged_iff (hunmixed : Unmixed M c e) (hdevice : device < DEVPERINT) :
    (acknowledged c e).map Prod.fst = some (terminalChannel device sub) ↔ e.Serves device sub := by
  by_cases hex : e.exception = .INTERRUPT
  · rcases hline : pendingLine e.state.s_cause with - | line
    · simp [acknowledged, hex, hline, Entry.Serves]
    · by_cases hlo : DISKINT ≤ line
      · rw [acknowledged_eq hex hline hlo, Option.some.injEq, terminalChannel, Prod.mk.injEq]
        exact (serves_iff_index sub hex hline hlo (hunmixed.first hex line hline) rfl rfl hdevice).2.symm
      · have hne : line ≠ TERMINT := fun heq => hlo (heq ▸ by decide)
        have hnone : acknowledged c e = none := by
          unfold acknowledged
          simp only [hex, hline]
          split
          · rw [if_neg hlo]
          · rfl
        simp [hnone, Entry.Serves, hline, hne]
  · have hnone : acknowledged c e = none := by
      unfold acknowledged
      split
      · rename_i hinterrupt _
        exact absurd hinterrupt hex
      · rfl
    simp [hnone, Entry.Serves, hex]

/-- The semaphore of a part of a terminal after an exception: P by a SYS8 for it, V by an
interrupt that is taken for it, and processes that wait can be killed. -/
structure SubDevice.Stepped (M : Machine) (device : Nat) (sub : SubDevice) (cur : PcbPtr) (e : Entry)
    (s s' : Semaphore) : Prop where
  wait : e.awaits device sub → ∃ p, cur = .to p ∧ s' = s.wait p
  signal : e.Serves device sub → s' = s.signal
  other : ¬ e.awaits device sub → ¬ e.Serves device sub →
    ∃ l : List Pid, s' = ⟨s.value, s.waiting.filter (· ∉ l)⟩

theorem Service.terminal {number : Int} (hn : Nucleus.Settled M ⟨q, d⟩)
    (hlegal : Legal M c e) (hcalls : e.calls number) (hd : d = (e.enter c.kernel.data).advance)
    (hact : Service M q d number n next) (hcur : d.currentProcess ≠ .null)
    (hdevice : device < DEVPERINT) : sub.Stepped M device d.currentProcess e
      (Nucleus.semaphore (terminalSemaphore M device sub) ⟨q, d⟩)
      (n.semaphore (terminalSemaphore M device sub)) := by
  have honDevice := onDevice_terminalSemaphore (M := M) sub hdevice
  have hclock := terminalSemaphore_ne_clock (M := M) sub hdevice
  obtain ⟨i, hi, hsem⟩ := honDevice
  have hw : M.writable (terminalSemaphore M device sub) = true := by
    rw [hsem, Machine.semAdd_ofNat]
    exact M.sem_writable i hi
  have hrange := (deviceRange_iff hw).mpr (Or.inl ⟨i, hi, hsem⟩)
  have hiff : semaphoreOf M d number = some (terminalSemaphore M device sub) ↔
      e.awaits device sub := by
    have hargs := hlegal.arguments hcalls.1 hcalls.2.1
    unfold semaphoreOf
    split
    · rename_i hnumber
      have hawaits : ¬ e.awaits device sub := fun h =>
        Entry.calls_ne hcalls (by rcases hnumber with rfl | rfl <;> decide) h.1
      simp only [hawaits, iff_false, Option.some.injEq]
      rw [hd, Entry.advance_arg hcalls.1, hsem]
      exact hargs.semaphore (by rw [hcalls.2.2]; exact hnumber) i hi
    · split
      · rename_i hnumber
        subst hnumber
        have hawaits : ¬ e.awaits device sub := fun h => Entry.calls_ne hcalls (by decide) h.1
        simp [hawaits, hclock.symm]
      · split
        · rename_i hnumber
          subst hnumber
          rw [Entry.awaits_iff (d := c.kernel.data) hlegal hcalls hdevice, hd, Option.some.injEq]
        · rename_i hnumber
          have hawaits : ¬ e.awaits device sub := fun h => Entry.calls_ne hcalls hnumber h.1
          simp [hawaits]
  refine ⟨fun hawaits => ?_, fun hserves => ?_, fun hawaits _ => ?_⟩
  · obtain ⟨p, hp⟩ : ∃ p, d.currentProcess = .to p := by
      rcases hcase : d.currentProcess with - | - | p
      · exact absurd hcase hcur
      · exact absurd hcase hn.current
      · exact ⟨p, rfl⟩
    have hnumber : number = 8 := hcalls.2.2.symm.trans hawaits.1.2.2
    exact ⟨p, hp, (hact.semaphore_wait hn (Or.inr hnumber) (hiff.mpr hawaits) hw hp).1⟩
  · exact absurd (hserves.1.symm.trans hcalls.1) nofun
  · rcases hact.semaphore_other hn (fun heq => hawaits (hiff.mp heq)) with hsame | ⟨-, hkill⟩
    · exact ⟨[], by simp [hsame]⟩
    · obtain ⟨p, l, -, -, hs⟩ := hkill
      rw [if_pos hrange] at hs
      exact ⟨l, hs⟩

theorem Handles.terminal (hn : Nucleus.Settled M ⟨q, e.enter c.kernel.data⟩)
    (hstates : c.kernel.heap.pcb_states = q.states) (hlegal : Legal M c e) (hunmixed : Unmixed M c e)
    (hcur : e.exception = .SYSCALL → c.kernel.data.currentProcess ≠ .null)
    (hdevice : device < DEVPERINT)
    (hact : Handles M q (e.enter c.kernel.data) e.exception n next) :
    sub.Stepped M device c.kernel.data.currentProcess e
      (Nucleus.semaphore (terminalSemaphore M device sub) ⟨q, e.enter c.kernel.data⟩)
      (n.semaphore (terminalSemaphore M device sub)) := by
  have honDevice := onDevice_terminalSemaphore (M := M) sub hdevice
  have hw : M.writable (terminalSemaphore M device sub) = true := by
    obtain ⟨i, hi, hsem⟩ := honDevice
    rw [hsem, Machine.semAdd_ofNat]
    exact M.sem_writable i hi
  rcases hact.cases_enter with ⟨number, hcalls, -, -, hact⟩ | ⟨type, hraises, hact⟩ | ⟨hex, hact⟩
  · have hn' : Nucleus.Settled M ⟨q, (e.enter c.kernel.data).advance⟩ := hn.congr rfl rfl
    exact hact.terminal hn' hlegal hcalls rfl (hcur hcalls.1) hdevice
  · have hpass : (e.pass c.kernel.data).currentProcess = c.kernel.data.currentProcess ∧
        (e.pass c.kernel.data).processCount = c.kernel.data.processCount ∧
        (e.pass c.kernel.data).mem = e.mem := by
      unfold Entry.pass
      split <;> exact ⟨rfl, rfl, rfl⟩
    have hn' : Nucleus.Settled M ⟨q, e.pass c.kernel.data⟩ := hn.congr hpass.1 hpass.2.1
    have hapart : ∀ p, (e.pass c.kernel.data).currentProcess = .to p → ∀ f : Field,
        f.addr (q.states p type .OLD) ≠ terminalSemaphore M device sub := by
      intro p hcur f heq
      refine hunmixed.areas p (hpass.1 ▸ hcur) type f ?_
      rw [hstates, heq]
      exact honDevice
    have hsame : Nucleus.semaphore (terminalSemaphore M device sub) ⟨q, e.pass c.kernel.data⟩ =
        Nucleus.semaphore (terminalSemaphore M device sub) ⟨q, e.enter c.kernel.data⟩ := by
      unfold Nucleus.semaphore
      rw [hpass.2.2]
      rfl
    refine ⟨fun hawaits => ?_, fun hserves => ?_, fun _ _ => ?_⟩
    · have hother := Entry.calls_of_raises hraises WAITIO hawaits.1
      exact absurd hother (by decide)
    · rw [Entry.raises, hserves.1] at hraises
      exact absurd hraises (by simp)
    · rcases hact.semaphore_other hn' hapart with hkept | ⟨-, p, l, -, -, hs⟩
      · exact ⟨[], by simp [hkept, hsame]⟩
      · rw [if_pos ((deviceRange_iff hw).mpr (Or.inl honDevice)), hpass.2.2] at hs
        exact ⟨l, hs⟩
  · have hn' : Nucleus.Settled M ⟨q, (e.enter c.kernel.data).stopClock⟩ := hn.congr rfl rfl
    have hsem := hact.semaphore hn' (terminalSemaphore_ne_clock sub hdevice)
    have hiff : (∃ line, pendingLine e.state.s_cause = some line ∧ DISKINT ≤ line ∧
        deviceSemaphore M (e.enter c.kernel.data).stopClock line = terminalSemaphore M device sub) ↔
        e.Serves device sub := by
      constructor
      · rintro ⟨line, hline, hlo, heq⟩
        exact (serves_iff_semaphore hex hline hlo (hunmixed.first hex line hline) rfl rfl
          hdevice).mpr heq
      · intro hserves
        have hlo : DISKINT ≤ TERMINT := by decide
        exact ⟨TERMINT, hserves.2.1, hlo, (serves_iff_semaphore hex hserves.2.1 hlo
          (hunmixed.first hex TERMINT hserves.2.1) rfl rfl hdevice).mp hserves⟩
    refine ⟨fun hawaits => ?_, fun hserves => ?_, fun _ hserves => ⟨[], ?_⟩⟩
    · exact absurd (hex.symm.trans hawaits.1.1) (by simp)
    · rw [hsem, if_pos (hiff.mpr hserves)]
      rfl
    · rw [hsem, if_neg fun h => hserves (hiff.mp h)]
      simp [Nucleus.semaphore, Entry.enter, Data.stopClock]

/-- Who waits on `a` still does, or has been killed. -/
def Queues.Stays (a : Word) (q q' : Queues) : Prop :=
  ∀ x ∈ q.waiting a, x ∈ q'.waiting a ∨ x ∈ q'.free

namespace Queues.Stays

theorem of_eq (h : q'.waiting a = q.waiting a) : q.Stays a q' := fun _ hx => Or.inl (h ▸ hx)

theorem block (hq : q.WF) : q.Stays a (q.block b p) := by
  intro x hx
  rw [Queues.waiting_block hq]
  split
  · rename_i heq
    exact Or.inl (List.mem_append_left _ (heq ▸ hx))
  · exact Or.inl hx

theorem erase {l : List Pid} (hq : q.WF) : q.Stays a (q.erase l) := by
  intro x hx
  by_cases hl : x ∈ l
  · exact Or.inr (by simp [Queues.erase, hl])
  · rw [Queues.waiting_erase hq]
    exact Or.inl (by simp [hx, hl])

end Queues.Stays

theorem Service.stays {number : Int} (hq : q.WF) (hact : Service M q d number n next)
    (hother : number = 3 → d.arg s_a1 ≠ a) : q.Stays a n.queues := by
  cases hact with
  | terminate _ _ => exact .erase hq
  | sesvKill _ _ _ _ => exact .erase hq
  | signalWake _ _ _ hwait =>
    exact .of_eq (Queues.waiting_wake_of_ne hq (hwait ▸ List.mem_cons_self) (hother rfl).symm)
  | waitBlock _ _ _ _ => exact .block hq
  | clockBlock _ _ _ => exact .block hq
  | ioBlock _ _ _ _ => exact .block hq
  | _ => exact .of_eq rfl

theorem PullUp.stays {type : TrapType} (hq : q.WF) (hact : PullUp M q d type n next) :
    q.Stays a n.queues := by
  cases hact with
  | die _ _ _ _ => exact .erase hq
  | _ => exact .of_eq rfl

theorem Handles.stays (hn : Nucleus.Settled M ⟨q, e.enter c.kernel.data⟩) (hlegal : Legal M c e)
    (hunmixed : Unmixed M c e) (hdevice : device < DEVPERINT) (hserves : ¬ e.Serves device sub)
    (hact : Handles M q (e.enter c.kernel.data) e.exception n next) :
    q.Stays (terminalSemaphore M device sub) n.queues := by
  rcases hact.cases_enter with ⟨number, hcalls, -, -, hact⟩ | ⟨type, -, hact⟩ | ⟨hex, hact⟩
  · refine hact.stays hn.wf fun hnumber => ?_
    obtain ⟨i, hi, hsem⟩ := onDevice_terminalSemaphore (M := M) sub hdevice
    rw [Entry.advance_arg hcalls.1, hsem]
    exact (hlegal.arguments hcalls.1 hcalls.2.1).semaphore
      (Or.inl (hcalls.2.2.trans hnumber)) i hi
  · exact hact.stays hn.wf
  · have hn' : Nucleus.Settled M ⟨q, (e.enter c.kernel.data).stopClock⟩ := hn.congr rfl rfl
    have hsem := hact.semaphore hn' (terminalSemaphore_ne_clock sub hdevice)
    rw [if_neg] at hsem
    · exact .of_eq (congrArg Semaphore.waiting hsem)
    · rintro ⟨line, hline, hlo, heq⟩
      exact hserves ((serves_iff_semaphore hex hline hlo (hunmixed.first hex line hline) rfl rfl
        hdevice).mpr heq)

theorem Service.devreg {number : Int} (hact : Service M q d number n next) :
    n.data.devreg = d.devreg := by
  cases hact <;> rfl

theorem PullUp.devreg {type : TrapType} (hact : PullUp M q d type n next) :
    n.data.devreg = d.devreg := by
  cases hact <;> rfl

theorem Nucleus.devreg_wakeAll : (Nucleus.wakeAll a n).data.devreg = n.data.devreg := by
  unfold Nucleus.wakeAll
  induction n.queues.waiting a generalizing n with
  | nil => rfl
  | cons x rest ih => exact ih

theorem Nucleus.devreg_preempt : n.preempt.data.devreg = n.data.devreg := by
  unfold Nucleus.preempt
  split <;> rfl

theorem Nucleus.devreg_finish : (next.finish n).2.data.devreg = n.data.devreg := by
  cases next with
  | stop x => rfl
  | sched resume =>
    simp only [Next.finish, Nucleus.schedule]
    split <;> simp [Data.dispatch, Data.idle]

/-- Only the registers of the devices that interrupts are taken for are written. -/
theorem Handles.command (hn : Nucleus.Settled M ⟨q, e.enter c.kernel.data⟩)
    (hunmixed : Unmixed M c e) (hdevice : device < DEVPERINT)
    (hact : Handles M q (e.enter c.kernel.data) e.exception n next) :
    (n.data.devreg (terminalReg device)).commandOf sub =
      if e.Serves device sub then ACK else (e.devreg (terminalReg device)).commandOf sub := by
  have hother : ¬ e.Serves device sub → n.data.devreg = e.devreg →
      (n.data.devreg (terminalReg device)).commandOf sub =
        if e.Serves device sub then ACK else (e.devreg (terminalReg device)).commandOf sub := by
    intro hserves hdevreg
    rw [if_neg hserves, hdevreg]
  rcases hact.cases_enter with ⟨number, hcalls, -, -, hact⟩ | ⟨type, hraises, hact⟩ | ⟨hex, hact⟩
  · exact hother (fun h => absurd (h.1.symm.trans hcalls.1) (by simp)) hact.devreg
  · refine hother (fun h => ?_) (hact.devreg.trans ?_)
    · rw [Entry.raises, h.1] at hraises
      exact absurd hraises (by simp)
    · unfold Entry.pass
      split <;> rfl
  · have hnot : ∀ {line}, pendingLine e.state.s_cause = some line → line < DISKINT →
        ¬ e.Serves device sub := by
      intro line hline hlow hserves
      have heq : line = TERMINT := Option.some.inj (hline.symm.trans hserves.2.1)
      subst heq
      exact absurd hlow (by decide)
    cases hact with
    | panic hline =>
      refine hother (fun h => ?_) rfl
      rcases hline with hline | hline
      · exact hnot hline (by decide) h
      · exact absurd (hline.symm.trans h.2.1) (by simp)
    | quantum hline => exact hother (hnot hline (by decide)) Nucleus.devreg_preempt
    | clock hline _ =>
      exact hother (hnot hline (by decide))
        (Nucleus.devreg_preempt.trans Nucleus.devreg_wakeAll)
    | @device line hline hlo hhi =>
      have hsettled : Nucleus.Settled M ⟨q, (e.enter c.kernel.data).stopClock.acked line
        (deviceIndex (e.enter c.kernel.data).stopClock line)⟩ := hn.congr rfl rfl
      have hdevreg := Nucleus.devreg_preempt.trans (Nucleus.signal_queues
        (a := deviceSemaphore M (e.enter c.kernel.data).stopClock line) hsettled).2.1
      rw [hdevreg]
      have hindex := (serves_iff_index (d := (e.enter c.kernel.data).stopClock) sub hex
        hline hlo (hunmixed.first hex line hline) rfl rfl hdevice).2
      show (Function.update e.devreg (deviceIndex (e.enter c.kernel.data).stopClock line) _
        (terminalReg device)).commandOf sub = _
      by_cases hreg : deviceIndex (e.enter c.kernel.data).stopClock line = terminalReg device
      · have hterm : line = TERMINT := by
          by_contra hne
          have hhi' : line ≤ 7 := hhi
          have hvalue := deviceIndex_eq (d := (e.enter c.kernel.data).stopClock) line
          rw [hreg] at hvalue
          have hbit := hunmixed.first hex line hline
          split at hvalue
          · simp only [terminalReg, TERMINT, DEVPERINT, DEVNOSEM] at *
            omega
          · rename_i hclear
            have hlow : ¬ PRNTINT ≤ line := fun hle => hclear ((and_DEVICEZERO _).mpr (hbit hle))
            simp only [terminalReg, TERMINT, DEVPERINT, DEVNOSEM, PRNTINT] at *
            omega
        subst hterm
        have hzero : device = 0 := by
          have hvalue := deviceIndex_eq (d := (e.enter c.kernel.data).stopClock) TERMINT
          rw [hreg, if_pos] at hvalue
          · simp only [terminalReg, TERMINT, DEVPERINT, DEVNOSEM] at hvalue
            omega
          · exact (and_DEVICEZERO _).mpr (hunmixed.first hex TERMINT hline (by decide))
        subst hzero
        rw [hreg, Function.update_self]
        show ((e.devreg (terminalReg 0)).acked TERMINT).commandOf sub = _
        rw [Device.commandOf_acked]
        have hiff : e.Serves 0 sub ↔ sub = (e.devreg (terminalReg 0)).chosen :=
          ⟨fun h => h.2.2.2, fun h => ⟨hex, hline, rfl, h⟩⟩
        simp only [hiff]
      · rw [Function.update_of_ne (Ne.symm hreg), if_neg fun h => hreg (hindex.mp h).1]

/-- Who is ready stays so, or is dispatched. -/
theorem Nucleus.ready_finish (hp : p ∈ n.queues.ready) :
    p ∈ (next.finish n).2.queues.ready ∨ (next.finish n).2.data.currentProcess = .to p := by
  cases next with
  | stop x => exact Or.inl hp
  | sched resume =>
    simp only [Next.finish, Nucleus.schedule]
    split
    · rename_i y rest hready
      by_cases heq : p = y
      · exact Or.inr (by simp [Data.dispatch, heq])
      · exact Or.inl ((List.mem_erase_of_ne heq).mpr hp)
    · exact Or.inl hp

/-- The process that an interrupt wakes goes on. -/
theorem Handles.released (hn : Nucleus.Settled M ⟨q, e.enter c.kernel.data⟩)
    (hunmixed : Unmixed M c e) (hdevice : device < DEVPERINT) (hserves : e.Serves device sub)
    (hact : Handles M q (e.enter c.kernel.data) e.exception n next)
    (hwakes : (e.mem (terminalSemaphore M device sub) + 1).toInt ≤ 0)
    (hp : p ∈ (q.waiting (terminalSemaphore M device sub)).take 1) : p ∈ n.queues.ready := by
  have hex := hserves.1
  have hterm := hserves.2.1
  rcases hact.cases_enter with ⟨number, hcalls, -, -, -⟩ | ⟨type, hraises, -⟩ | ⟨-, hact⟩
  · exact absurd (hcalls.1.symm.trans hex) (by simp)
  · rw [Entry.raises, hex] at hraises
    exact absurd hraises (by simp)
  · have hnot : ∀ {line}, pendingLine e.state.s_cause = some line → line = TERMINT :=
      fun hline => Option.some.inj (hline.symm.trans hterm)
    cases hact with
    | panic hline =>
      rcases hline with hline | hline
      · exact absurd (hnot hline) (by decide)
      · exact absurd (hline.symm.trans hterm) (by simp)
    | quantum hline => exact absurd (hnot hline) (by decide)
    | clock hline _ => exact absurd (hnot hline) (by decide)
    | @device line hline hlo _ =>
      obtain rfl := hnot hline
      have hsettled : Nucleus.Settled M ⟨q, (e.enter c.kernel.data).stopClock.acked TERMINT
        (deviceIndex (e.enter c.kernel.data).stopClock TERMINT)⟩ := hn.congr rfl rfl
      have hsem := (serves_iff_semaphore (M := M) (d := (e.enter c.kernel.data).stopClock) hex hline
        hlo (hunmixed.first hex _ hline) rfl rfl hdevice).mp hserves
      obtain ⟨new, hnew⟩ := Nucleus.ready_preempt (n := Nucleus.signal
        (deviceSemaphore M (e.enter c.kernel.data).stopClock TERMINT)
        ⟨q, (e.enter c.kernel.data).stopClock.acked TERMINT
          (deviceIndex (e.enter c.kernel.data).stopClock TERMINT)⟩)
      rw [hnew, (Nucleus.signal_queues hsettled).2.2.2.1, hsem]
      have hif : ((e.enter c.kernel.data).stopClock.acked TERMINT
          (deviceIndex (e.enter c.kernel.data).stopClock TERMINT)).mem
            (terminalSemaphore M device sub) = e.mem (terminalSemaphore M device sub) := rfl
      rw [hif, if_pos hwakes]
      simp [hp]

/-- What a step does to a part of a terminal. -/
structure SubDevice.Happens (M : Machine) (device : Nat) (sub : SubDevice) (c : Config) (e : Entry)
    (c' : Config) : Prop where
  stepped : sub.Stepped M device c.kernel.data.currentProcess e
    (c.kernel.semaphore (terminalSemaphore M device sub))
    (c'.kernel.semaphore (terminalSemaphore M device sub))
  command : (c'.kernel.data.devreg (terminalReg device)).commandOf sub =
    if e.Serves device sub then ACK else (e.devreg (terminalReg device)).commandOf sub
  stays : ¬ e.Serves device sub →
    ∀ p ∈ c.kernel.heap.blockedOn (terminalSemaphore M device sub),
      p ∈ c'.kernel.heap.blockedOn (terminalSemaphore M device sub) ∨ p ∈ c'.kernel.heap.freeList
  released : e.Serves device sub →
    (c.kernel.data.mem (terminalSemaphore M device sub) + 1).toInt ≤ 0 →
    ∀ p ∈ (c.kernel.heap.blockedOn (terminalSemaphore M device sub)).take 1,
      p ∈ c'.kernel.heap.readyList ∨ c'.kernel.data.currentProcess = .to p

theorem Config.Exact.happens (hc : c.Exact M q) (sub : SubDevice) (hstep : (nucleus M).step c e c')
    (hunmixed : Unmixed M c e) (hdevice : device < DEVPERINT) : sub.Happens M device c e c' := by
  have hlegal := hstep.1
  have hn : Nucleus.Settled M ⟨q, e.enter c.kernel.data⟩ := hc.settled.congr rfl rfl
  have hmem : e.mem (terminalSemaphore M device sub) =
      c.kernel.data.mem (terminalSemaphore M device sub) := by
    obtain ⟨i, hi, hsem⟩ := onDevice_terminalSemaphore (M := M) sub hdevice
    rw [hsem]
    exact hlegal.semaphores i hi
  have hsem : Nucleus.semaphore (terminalSemaphore M device sub) ⟨q, e.enter c.kernel.data⟩ =
      c.kernel.semaphore (terminalSemaphore M device sub) := by
    unfold Nucleus.semaphore Kernel.semaphore
    rw [hc.represents.blockedOn_eq, ← hmem]
    rfl
  have hsome : e.exception = .SYSCALL → c.kernel.data.currentProcess ≠ .null := by
    intro hex hnull
    have hinterrupt := hc.interrupt hlegal hnull
    rw [hex] at hinterrupt
    exact absurd hinterrupt nofun
  rcases step_spec hstep hc.represents hc.settled with
    ⟨n, next, hfollows⟩ | ⟨hex, -, -, -, hderails⟩
  · have hlive := hfollows.live hc.represents hn
    have hact := hfollows.handles
    refine ⟨?_, ?_, fun hserves p hp => ?_, fun hserves hwakes p hp => ?_⟩
    · rw [hfollows.semaphore, ← hsem]
      exact hact.terminal hn hc.represents.states hlegal hunmixed hsome hdevice
    · rw [hfollows.data, Nucleus.devreg_finish]
      exact hact.command hn hunmixed hdevice
    · rw [hc.represents.blockedOn_eq] at hp
      have hwaiting : c'.kernel.heap.blockedOn (terminalSemaphore M device sub) =
          n.queues.waiting (terminalSemaphore M device sub) :=
        congrArg Semaphore.waiting hfollows.semaphore
      have hfree : c'.kernel.heap.freeList = n.queues.free := by
        rw [hlive.represents.freeList_eq hlive.settled.wf.free_nodup]
        exact Nucleus.family_finish.1
      rw [hwaiting, hfree]
      exact hact.stays hn hlegal hunmixed hdevice hserves p hp
    · rw [hc.represents.blockedOn_eq] at hp
      rw [hlive.represents.readyList_eq, hfollows.data]
      exact Nucleus.ready_finish (hact.released hn hunmixed hdevice hserves
        (by rwa [hmem]) hp)
  · refine absurd ?_ (hsome hex)
    generalize callNumber (e.enter c.kernel.data) = call at hderails
    cases hderails with
    | create hcur _ _ => exact hcur
    | clock hcur _ _ _ _ _ => exact hcur

variable {s s' : Config × Transfers} {ts : Transfers} {event : TerminalEvent}

/-- The part that the handler chooses has completed, unless the transmitter is busy. -/
theorem Entry.Serves.completed (hserves : e.Serves device sub) (hwired : Wired ts e)
    (hunmixed : Unmixed M c e) :
    device < DEVPERINT ∧ (e.interrupt_dev (TERMINT - DEVNOSEM)).getLsbD device = true ∧
      (e.devreg (terminalReg device)).Completed sub := by
  obtain ⟨hex, hline, rfl, rfl⟩ := hserves
  have hpending := hunmixed.first hex TERMINT hline (by decide)
  have hidle := hunmixed.transmitter hex hline
  obtain ⟨⟨sub, hcompleted⟩, hinstalled⟩ := hwired.pending 0 (by decide) hpending
  refine ⟨by decide, hpending, ?_⟩
  generalize e.devreg (terminalReg 0) = r at hidle hcompleted hinstalled ⊢
  unfold Device.chosen
  split
  · rename_i hready
    cases sub with
    | transmitter => exact absurd hcompleted (by simp [Device.Completed, hready])
    | receiver => exact hcompleted
  · rename_i hready
    have hstatus := hinstalled .transmitter
    unfold Device.Busy at hidle
    simp [Device.Completed, hready, hstatus, hidle]

/-- The semaphores of all terminals say how far their transfers have come. -/
def Standing (M : Machine) (s : Config × Transfers) : Prop :=
  ∀ device < DEVPERINT, ∀ sub : SubDevice,
    (s.2 device sub).Stands (s.1.kernel.semaphore (terminalSemaphore M device sub))

theorem Standing.start (hs : Standing M s) (hidle : s.2 device sub = .idle) :
    Standing M (s.1, s.2.start device sub) := by
  intro device' hdevice' sub'
  have hold := hs device' hdevice' sub'
  by_cases heq : device' = device ∧ sub' = sub
  · obtain ⟨rfl, rfl⟩ := heq
    rw [hidle] at hold
    simp only [Transfers.start, Function.update_self]
    exact hold
  · rw [not_and] at heq
    by_cases hdev : device' = device
    · subst hdev
      simpa [Transfers.start, Function.update_of_ne (heq rfl)] using hold
    · simpa [Transfers.start, Function.update_of_ne hdev] using hold

/-- An exception moves the transfers on as it does the semaphores. -/
theorem Standing.enter (hs : Standing M s) (hc : s.1.Exact M q)
    (hstep : (terminals M).step s (.enter e) s') (hunmixed : Unmixed M s.1 e) : Standing M s' := by
  obtain ⟨hnucleus, hwired, hawaits, hafter⟩ := hstep
  intro device hdevice sub
  have hold := hs device hdevice sub
  have hstepped := (hc.happens sub hnucleus hunmixed hdevice).stepped
  rw [hafter, Transfers.after]
  simp only [acknowledged_iff hunmixed hdevice]
  by_cases hawait : e.awaits device sub
  · obtain ⟨p, -, hwait⟩ := hstepped.wait hawait
    rw [if_pos hawait, hwait]
    exact (hold.await (hawaits device hdevice sub hawait)).1
  · rw [if_neg hawait]
    by_cases hserves : e.Serves device sub
    · have hwires := hwired hserves.1
      obtain ⟨-, -, hcompleted⟩ := hserves.completed hwires hunmixed
      rw [if_pos hserves, hstepped.signal hserves]
      exact (hold.acknowledge ((hwires.active device hdevice sub).mpr (Or.inr hcompleted))).1
    · obtain ⟨l, hkill⟩ := hstepped.other hawait hserves
      rw [if_neg hserves, hkill]
      exact hold.filter

theorem Standing.attended (hs : Standing M s) (hc : s.1.Exact M q)
    (hstep : (terminals M).step s (.enter e) s') (hunmixed : Unmixed M s.1 e)
    (hserves : e.Serves device sub) : Attended M device sub s.1 s'.1 := by
  obtain ⟨hnucleus, hwired, -, -⟩ := hstep
  have hwires := hwired hserves.1
  obtain ⟨hdevice, -, hcompleted⟩ := hserves.completed hwires hunmixed
  have hhappens := hc.happens sub hnucleus hunmixed hdevice
  obtain ⟨-, -, hwakes, hlength⟩ := (hs device hdevice sub).acknowledge
    ((hwires.active device hdevice sub).mpr (Or.inr hcompleted))
  have hsignal := hhappens.stepped.signal hserves
  refine ⟨?_, congrArg Semaphore.value hsignal, fun p hp => ?_⟩
  · rw [hhappens.command, if_pos hserves]
  · refine hhappens.released hserves (hwakes (List.ne_nil_of_mem hp)) p ?_
    have htake : (s.1.kernel.heap.blockedOn (terminalSemaphore M device sub)).take 1 =
        s.1.kernel.heap.blockedOn (terminalSemaphore M device sub) :=
      List.take_of_length_le hlength
    rwa [htake]

theorem Standing.served (hs : Standing M s) (hc : s.1.Exact M q)
    (hstep : (terminals M).step s (.enter e) s') (hunmixed : Unmixed M s.1 e) :
    TerminalsServed M s e s'.1 where
  serves hex hline := by
    have hserves : e.Serves 0 (e.devreg (terminalReg 0)).chosen := ⟨hex, hline, rfl, rfl⟩
    obtain ⟨hdevice, hpending, hcompleted⟩ := hserves.completed (hstep.2.1 hex) hunmixed
    exact ⟨0, hdevice, hpending, _, hcompleted, hs.attended hc hstep hunmixed hserves⟩
  spares device hdevice sub hnot := by
    have hserves : ¬ e.Serves device sub := fun h =>
      hnot ⟨h.1, (h.completed (hstep.2.1 h.1) hunmixed).2.2⟩
    have hhappens := hc.happens sub hstep.1 hunmixed hdevice
    refine ⟨?_, ?_, hhappens.stays hserves⟩
    · rw [hhappens.command, if_neg hserves]
    · by_cases hawait : e.awaits device sub
      · obtain ⟨p, -, hwait⟩ := hhappens.stepped.wait hawait
        rw [if_pos hawait]
        exact congrArg Semaphore.value hwait
      · obtain ⟨l, hkill⟩ := hhappens.stepped.other hawait hserves
        rw [if_neg hawait]
        exact (congrArg Semaphore.value hkill).trans (BitVec.sub_zero _).symm
  passes device hdevice sub hawait p hcur hp := by
    have hhappens := hc.happens sub hstep.1 hunmixed hdevice
    obtain ⟨p', hcur', hwait⟩ := hhappens.stepped.wait hawait
    obtain rfl : p = p' := by simpa [hcur] using hcur'
    have hstarted := hstep.2.2.1 device hdevice sub hawait
    refine ((hs device hdevice sub).await (p := p) hstarted).2 fun hmem => hp ?_
    rw [← hwait] at hmem
    exact hmem

def TerminalEvent.Unmixed (M : Machine) (c : Config) : TerminalEvent → Prop
  | .start _ _ => True
  | .enter e => Kaya.Unmixed M c e

theorem standing_of_run
    (hs : ((terminals M).restrict fun s event _ => event.Unmixed M s.1).Reachable s) :
    ∃ q, s.1.Exact M q ∧ s.1.kernel.heap.blockedOn M.semEnd = [] ∧ Standing M s := by
  refine hs.invariant (I := fun s => ∃ q, s.1.Exact M q ∧
    s.1.kernel.heap.blockedOn M.semEnd = [] ∧ Standing M s) (fun s hinit => ?_)
    fun s event s' ⟨q, hexact, hnone, hstanding⟩ hstep => ?_
  · obtain ⟨-, hrep, hbooted⟩ := nucleus_init hinit.1
    refine ⟨_, hbooted.exact hrep, hrep.blockedOn_eq _, fun device hdevice sub => ?_⟩
    obtain ⟨i, hi, hsem⟩ := onDevice_terminalSemaphore (M := M) sub hdevice
    rw [hinit.2, hsem]
    exact ⟨hbooted.mem i hi, hrep.blockedOn_eq _⟩
  · cases event with
    | start device sub =>
      obtain ⟨⟨-, -, hidle, rfl⟩, -⟩ := hstep
      exact ⟨q, hexact, hnone, hstanding.start hidle⟩
    | enter e =>
      obtain ⟨hstep, hunmixed⟩ := hstep
      obtain ⟨q', hexact', hnone'⟩ := hexact.step_outside hstep.1 hunmixed.outside hnone
      exact ⟨q', hexact', hnone', hstanding.enter hexact hstep hunmixed⟩

/-- In every run whose exceptions meet the condition, the terminals are served as they
should be, and their semaphores say how far the transfers have come. -/
theorem terminals_of_run
    (hs : ((terminals M).restrict fun s event _ => event.Unmixed M s.1).Reachable s) :
    Standing M s ∧ ∀ e s', (terminals M).step s (.enter e) s' → Unmixed M s.1 e →
      TerminalsServed M s e s'.1 := by
  obtain ⟨q, hexact, -, hstanding⟩ := standing_of_run hs
  exact ⟨hstanding, fun e s' hstep hunmixed => hstanding.served hexact hstep hunmixed⟩

theorem terminals_init (hc : (nucleus M).init c) : (terminals M).init (c, Transfers.idle) :=
  ⟨hc, rfl⟩

/-- A condition that can be decided: there are no areas for the traps of the process that
runs. -/
def Unhandled (M : Machine) (c : Config) (e : Entry) : Prop :=
  (e.exception = .INTERRUPT → ∀ line ∈ pendingLine e.state.s_cause, PRNTINT ≤ line →
    (e.interrupt_dev (line - DEVNOSEM)).getLsbD 0 = true) ∧
  (e.exception = .INTERRUPT → ¬ (e.devreg (terminalReg 0)).Busy .transmitter) ∧
  (e.calls VERHOGEN ∨ e.calls PASSEREN → ¬ deviceRange M (e.state.s_reg s_a1)) ∧
  ∀ p, c.kernel.data.currentProcess = .to p →
    ∀ type ∈ [TrapType.TLBTRAP, .PROGTRAP, .SYSTRAP], c.kernel.heap.pcb_states p type .OLD = NULL

instance : Decidable (Unhandled M c e) := inferInstanceAs (Decidable (_ ∧ _ ∧ _ ∧ _))

theorem Unhandled.unmixed (h : Unhandled M c e) : Unmixed M c e := by
  obtain ⟨hfirst, hbusy, houtside, hstates⟩ := h
  refine ⟨fun hex line hline => hfirst hex line hline, fun hex _ => hbusy hex, houtside,
    fun p hcur type f hdevice => ?_⟩
  obtain ⟨i, hi, heq⟩ := hdevice
  rw [hstates p hcur type (by cases type <;> decide)] at heq
  -- the words behind `NULL` are not aligned
  have hsem : M.sem.toNat % 4 = 0 := by
    have hw := M.sem_writable 0 (by decide)
    simpa using M.aligned _ (M.readable_of_writable _ hw)
  have hnull : NULL.toNat = 0xFFFFFFFF := rfl
  have hnat := congrArg BitVec.toNat heq
  rw [Field.addr, BitVec.toNat_add, BitVec.toNat_ofNat, hnull, M.semAdd_toNat hi.le] at hnat
  omega

inductive TerminalCue where
  | start (device : Nat) (sub : SubDevice)
  | enter (cue : Cue)

/-- Runs of the small machine and its terminals. -/
def terminalScript : Script (Config × Transfers) TerminalEvent TerminalCue where
  event s
    | .start device sub => .start device sub
    | .enter cue => .enter (cue.entry s.1)
  next s
    | .start device sub => (s.1, s.2.start device sub)
    | .enter cue => (cue.next s.1, s.2.after s.1 (cue.entry s.1))
  fits s
    | .start device sub =>
      decide (device < DEVPERINT) && s.1.stop.isLDST && decide (s.2 device sub = .idle)
    | .enter cue => cue.legal s.1 &&
        decide ((cue.entry s.1).exception = .INTERRUPT → Wired s.2 (cue.entry s.1)) &&
        decide (∀ device < DEVPERINT, ∀ sub, (cue.entry s.1).awaits device sub →
          s.2 device sub = .started ∨ s.2 device sub = .acknowledged)

theorem terminalScript_follows : terminalScript.Follows (terminals smallMachine) := by
  intro s cue h
  cases cue with
  | start device sub =>
    simp only [terminalScript, Bool.and_eq_true, decide_eq_true_eq] at h
    exact ⟨h.1.1, h.1.2, h.2, rfl⟩
  | enter cue =>
    simp only [terminalScript, Bool.and_eq_true, decide_eq_true_eq] at h
    exact ⟨smallScript_follows _ _ h.1.1, h.1.2, h.2, rfl⟩

theorem terminalScript_enter (s : Config × Transfers) (cue : Cue)
    (h : terminalScript.fits s (.enter cue) = true) :
    (terminals smallMachine).step s (.enter (cue.entry s.1))
      (cue.next s.1, s.2.after s.1 (cue.entry s.1)) :=
  terminalScript_follows s (.enter cue) h

def TerminalEvent.Unhandled (M : Machine) (c : Config) : TerminalEvent → Prop
  | .start _ _ => True
  | .enter e => Kaya.Unhandled M c e

instance : ∀ event : TerminalEvent, Decidable (event.Unhandled M c)
  | .start _ _ => inferInstanceAs (Decidable True)
  | .enter e => inferInstanceAs (Decidable (Kaya.Unhandled M c e))

def unhandledScript : Script (Config × Transfers) TerminalEvent TerminalCue :=
  terminalScript.restrict fun s event _ => event.Unhandled smallMachine s.1

theorem unhandledScript_follows : unhandledScript.Follows
    ((terminals smallMachine).restrict fun s event _ => event.Unmixed smallMachine s.1) := by
  refine terminalScript_follows.restrict.weaken fun s event s' h => ?_
  cases event with
  | start _ _ => trivial
  | enter e => exact Unhandled.unmixed h

theorem unhandledScript_enter (s : Config × Transfers) (cue : Cue)
    (h : unhandledScript.fits s (.enter cue) = true) :
    (terminals smallMachine).step s (.enter (cue.entry s.1))
      (cue.next s.1, s.2.after s.1 (cue.entry s.1)) ∧ Unmixed smallMachine s.1 (cue.entry s.1) :=
  unhandledScript_follows s (.enter cue) h

/-- Terminal 0, with the given status of its two parts. -/
def terminalInterrupt (receiver transmitter : Word) : Cue :=
  .interrupt LINESEVEN 1 fun i =>
    if i = terminalReg 0 then ⟨receiver, 0, transmitter, 0⟩ else ⟨1, 0, 1, 0⟩

/-- The first process and its child wait for output and input on terminal 0. The output
completes, and a second one before its SYS8. -/
def terminalCues : List TerminalCue := [.enter (.call 1 0x20001000 0 0), .start 0 .transmitter,
  .start 0 .receiver, .enter (.call 8 7 0 0), .enter (.call 8 7 0 1),
  .enter (terminalInterrupt 3 5), .start 0 .transmitter, .enter (terminalInterrupt 3 5)]

def terminalsBefore : Config × Transfers := unhandledScript.play (smallBoot, Transfers.idle) terminalCues

/-- The input completes, for which the child waits. -/
theorem terminals_of_run_small :
    terminalsBefore.1.kernel.heap.blockedOn (terminalSemaphore smallMachine 0 .receiver) = [18] ∧
    terminalsBefore.2 0 .transmitter = .acknowledged ∧
    TerminalsServed smallMachine terminalsBefore ((terminalInterrupt 5 1).entry terminalsBefore.1)
      ((terminalInterrupt 5 1).next terminalsBefore.1) := by
  have hreach : ((terminals smallMachine).restrict fun s event _ =>
      event.Unmixed smallMachine s.1).Reachable terminalsBefore :=
    unhandledScript_follows.reachable (.init (terminals_init (boot_init _ _ _))) (by decide +kernel)
  obtain ⟨hstep, hunmixed⟩ :=
    unhandledScript_enter terminalsBefore (terminalInterrupt 5 1) (by decide +kernel)
  have hserved := (terminals_of_run hreach).2 _ _ hstep hunmixed
  dsimp only at hserved
  exact ⟨by decide +kernel, by decide +kernel, hserved⟩

/-- The first process waits for its output on terminal 0, and its child has started an
input. -/
def smallReader : Config × Transfers := terminalScript.play (smallBoot, Transfers.idle)
  [.enter (.call 1 0x20001000 0 0), .start 0 .transmitter, .enter (.call 8 7 0 0),
    .start 0 .receiver]

/-- The input completes while the output is busy, and the handler acknowledges the
transmitter. -/
theorem not_always_terminalsServed : ¬ ∀ (M : Machine) (s s' : Config × Transfers) (e : Entry),
    (terminals M).Reachable s → (terminals M).step s (.enter e) s' → TerminalsServed M s e s'.1 := by
  intro hall
  have hreach : (terminals smallMachine).Reachable smallReader :=
    terminalScript_follows.reachable (.init (terminals_init (boot_init _ _ _))) (by decide +kernel)
  have hstep := terminalScript_enter smallReader (terminalInterrupt 5 3) (by decide +kernel)
  have hserved := hall smallMachine _ _ _ hreach hstep
  dsimp only at hserved
  have hbusy : ¬ (((terminalInterrupt 5 3).entry smallReader.1).devreg (terminalReg 0)).Completed
      .transmitter := by
    decide +kernel
  have hcommand := (hserved.spares 0 (by decide) .transmitter fun h => hbusy h.2).command
  have hacked : (((terminalInterrupt 5 3).next smallReader.1).kernel.data.devreg
      (terminalReg 0)).commandOf .transmitter ≠
      (((terminalInterrupt 5 3).entry smallReader.1).devreg (terminalReg 0)).commandOf
        .transmitter := by
    decide +kernel
  exact hacked hcommand

end Kaya
