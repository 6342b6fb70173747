import Kaya.Phase2.ClockInterrupt
import Kaya.Phase2.SoftBlock

open Links Exec

namespace Kaya

variable {M : Machine} {h : Heap} {q : Queues} {d : Data} {c : Config} {e : Entry} {a : Word}
  {line device direction : Nat}

/-- The pending device with the lowest number. -/
structure LowestPending (bitMap : Word) (device : Nat) : Prop where
  lt : device < DEVPERINT
  pending : bitMap.getLsbD device = true
  lowest : ∀ i < device, bitMap.getLsbD i = false

/-- The semaphore that SYS8 computes from a line, a device and a direction. -/
def waitSemaphore (M : Machine) (line device direction : Nat) : Word :=
  M.semAdd ((BitVec.ofNat 32 line - 3 + BitVec.ofNat 32 direction) * 8 + BitVec.ofNat 32 device)

theorem waitSemaphore_eq (hlo : DISKINT ≤ line) : waitSemaphore M line device direction =
    M.semAdd (BitVec.ofNat 32 (DEVPERINT * (line - DEVNOSEM + direction) + device)) := by
  obtain ⟨n, rfl⟩ := Nat.exists_eq_add_of_le hlo
  unfold waitSemaphore
  congr 1
  apply BitVec.eq_of_toNat_eq
  simp only [DISKINT, DEVPERINT, DEVNOSEM]
  bv_omega

/-- A device register after an acknowledgement: the transmitter of a terminal has
its own command word. -/
def Device.ackFor (line direction : Nat) (r : Device) : Device :=
  if line = TERMINT ∧ direction = 0 then { r with d_data1 := ACK } else { r with d_command := ACK }

/-- The device has been acknowledged and the V done on the semaphore that SYS8
uses for it. -/
structure Kernel.DeviceServed (M : Machine) (line device direction : Nat) (k k' : Kernel) :
    Prop where
  acked : k'.data.devreg = Function.update k.data.devreg (DEVPERINT * (line - DEVNOSEM) + device)
    ((k.data.devreg (DEVPERINT * (line - DEVNOSEM) + device)).ackFor line direction)
  signalled : k'.data.mem = Function.update k.data.mem (waitSemaphore M line device direction)
    (k.data.mem (waitSemaphore M line device direction) + 1)
  released : k'.heap.blockedOn (waitSemaphore M line device direction) =
    if (k'.data.mem (waitSemaphore M line device direction)).toInt ≤ 0 then
      (k.heap.blockedOn (waitSemaphore M line device direction)).tail
    else k.heap.blockedOn (waitSemaphore M line device direction)
  ready : k'.heap.readyList = k.heap.readyList ++
    if (k'.data.mem (waitSemaphore M line device direction)).toInt ≤ 0 then
      (k.heap.blockedOn (waitSemaphore M line device direction)).take 1
    else []
  others : ∀ a ≠ waitSemaphore M line device direction, k'.heap.blockedOn a = k.heap.blockedOn a

/-- The interrupt handler acknowledges the device and does the V for it in one of
the directions that it has, and goes on to `finish`. -/
def ServesDevice (M : Machine) (c : Config) (e : Entry) (line device : Nat) : Prop :=
  ∃ direction k, (direction = 0 ∨ direction = 1 ∧ line = TERMINT) ∧
    (deviceInterrupt M line).run (c.taken e) = .ok () k ∧
    (∀ n, (ioTrapHandler M n).run ⟨c.kernel.heap, e.enter c.kernel.data⟩ = (finish M).run k) ∧
    (c.taken e).DeviceServed M line device direction k

theorem pendingLine_device {cause : Word} (hline : pendingLine cause = some line)
    (hlo : DISKINT ≤ line) : cause &&& LINEZERO ≠ LINEZERO ∧ cause &&& LINEONE ≠ LINEONE ∧
      cause &&& LINETWO ≠ LINETWO ∧ deviceLine cause = some line := by
  have hlo' : 3 ≤ line := hlo
  unfold pendingLine at hline
  by_cases h0 : cause &&& LINEZERO = LINEZERO
  · rw [if_pos h0, Option.some.injEq] at hline
    omega
  by_cases h1 : cause &&& LINEONE = LINEONE
  · rw [if_neg h0, if_pos h1, Option.some.injEq] at hline
    omega
  by_cases h2 : cause &&& LINETWO = LINETWO
  · rw [if_neg h0, if_neg h1, if_pos h2, Option.some.injEq] at hline
    omega
  rw [if_neg h0, if_neg h1, if_neg h2] at hline
  exact ⟨h0, h1, h2, hline⟩

/-- The branch of a device line in the handler. -/
theorem run_ioTrapHandler_device {n : Nat} {k : Kernel}
    (hline : pendingLine (d.old .INTPOLDAREA).s_cause = some line) (hlo : DISKINT ≤ line)
    (hrun : (deviceInterrupt M line).run ⟨h, d.stopClock⟩ = .ok () k) :
    (ioTrapHandler M n).run ⟨h, d⟩ = (finish M).run k := by
  obtain ⟨h0, h1, h2, hdevice⟩ := pendingLine_device hline hlo
  rw [run_ioTrapHandler rfl, if_neg h0, if_neg h1, if_neg h2, hdevice]
  exact Exec.run_bind_ok hrun

/-- The V of an interrupt, as seen in the queues. -/
theorem Nucleus.signal_queues (hn : Nucleus.Settled M ⟨q, d⟩) :
    (Nucleus.signal a ⟨q, d⟩).data.mem = Function.update d.mem a (d.mem a + 1) ∧
    (Nucleus.signal a ⟨q, d⟩).data.devreg = d.devreg ∧
    (Nucleus.signal a ⟨q, d⟩).queues.waiting a =
      (if (d.mem a + 1).toInt ≤ 0 then (q.waiting a).tail else q.waiting a) ∧
    (Nucleus.signal a ⟨q, d⟩).queues.ready =
      q.ready ++ (if (d.mem a + 1).toInt ≤ 0 then (q.waiting a).take 1 else []) ∧
    ∀ b ≠ a, (Nucleus.signal a ⟨q, d⟩).queues.waiting b = q.waiting b := by
  cases hwait : q.waiting a with
  | nil => simp [Nucleus.signal, hwait, Data.setMem]
  | cons x rest =>
    have hx : x ∈ q.waiting a := by simp [hwait]
    by_cases hv : (d.mem a + 1).toInt ≤ 0
    · have hsignal : Nucleus.signal a ⟨q, d⟩ =
          ⟨q.wake x, (d.setMem a (d.mem a + 1)).addSoftBlock (-1)⟩ := by
        simp only [Nucleus.signal, hwait]
        rw [if_pos hv]
      rw [hsignal]
      refine ⟨rfl, rfl, ?_, ?_, fun b hb => Queues.waiting_wake_of_ne hn.wf hx hb⟩
      · rw [if_pos hv, Queues.waiting_wake_head hn.wf hwait]
        rfl
      · rw [if_pos hv]
        rfl
    · have hsignal : Nucleus.signal a ⟨q, d⟩ = ⟨q, d.setMem a (d.mem a + 1)⟩ := by
        simp only [Nucleus.signal, hwait]
        rw [if_neg hv]
      rw [hsignal]
      refine ⟨rfl, rfl, ?_, ?_, fun b _ => rfl⟩
      · rw [if_neg hv]
        exact hwait
      · rw [if_neg hv, List.append_nil]

/-- The bit the scan looks at. -/
theorem and_DEVICEZERO (bitMap : Word) :
    bitMap &&& DEVICEZERO = DEVICEZERO ↔ bitMap.getLsbD 0 = true := by
  constructor
  · intro heq
    have hbit := congrArg (·.getLsbD 0) heq
    simpa [DEVICEZERO] using hbit
  · intro hbit
    apply BitVec.eq_of_getLsbD_eq
    intro i hi
    by_cases hzero : i = 0
    · simp [hzero, hbit, DEVICEZERO]
    · have hone : DEVICEZERO.getLsbD i = false := by
        have hall : ∀ i < 32, i ≠ 0 → DEVICEZERO.getLsbD i = false := by decide
        exact hall i hi hzero
      simp [hone]

/-- The handler serves the lowest pending device of a line exactly when that is
device 0. -/
theorem servesDevice_iff (hc : (nucleus M).Reachable c) (hlegal : Legal M c e)
    (hex : e.exception = .INTERRUPT) (hline : pendingLine e.state.s_cause = some line)
    (hlo : DISKINT ≤ line) (hdevice : LowestPending (e.interrupt_dev (line - DEVNOSEM)) device) :
    ServesDevice M c e line device ↔ (e.interrupt_dev (line - DEVNOSEM)).getLsbD 0 = true := by
  obtain ⟨q, hlive⟩ := Config.Live.of_legal hc hlegal (Or.inl (by simp [hex]))
  have hn : Nucleus.Settled M ⟨q, (c.taken e).data⟩ := hlive.settled.congr rfl rfl
  have harea : ((e.enter c.kernel.data).old .INTPOLDAREA).s_cause = e.state.s_cause := by
    simp [Entry.enter, hex, Exception.area]
  obtain ⟨-, -, -, hdeviceLine⟩ := pendingLine_device hline hlo
  have hhi : line ≤ TERMINT := (deviceLine_range hdeviceLine).2
  obtain ⟨h', hrun, hrep', -⟩ := deviceInterrupt_spec (M := M) hlive.represents hn hhi
  have hacked : Nucleus.Settled M
      ⟨q, (c.taken e).data.acked line (deviceIndex (c.taken e).data line)⟩ := hn.congr rfl rfl
  obtain ⟨hmem, hdevreg, hreleased, hready, hothers⟩ :=
    Nucleus.signal_queues (a := deviceSemaphore M (c.taken e).data line) hacked
  have hindex := deviceIndex_eq (d := (c.taken e).data) line
  have hbitMap : (c.taken e).data.interrupt_dev = e.interrupt_dev := rfl
  have hlo' : 3 ≤ line := hlo
  have hhi' : line ≤ 7 := hhi
  constructor
  · rintro ⟨direction, k, hdirection, hrun', -, hserved⟩
    by_contra hzero
    obtain rfl := (EStateM.Result.ok.injEq _ _ _ _ ▸ hrun.symm.trans hrun').2
    rw [hbitMap, if_neg (fun heq => hzero ((and_DEVICEZERO _).mp heq))] at hindex
    have hpos : device ≠ 0 := by
      rintro rfl
      exact hzero hdevice.pending
    have hlt := hdevice.lt
    have hdir : direction ≤ 1 := by omega
    have hne : waitSemaphore M line device direction ≠ deviceSemaphore M (c.taken e).data line := by
      rw [waitSemaphore_eq hlo]
      unfold deviceSemaphore
      rw [hindex]
      intro heq
      have hnat := congrArg BitVec.toNat heq
      unfold ackOffset at hnat
      simp only [DEVPERINT, DEVNOSEM] at hnat hlt
      rw [Machine.semAdd_toNat (by simp only [TOTALSEM]; omega)] at hnat
      split at hnat
      · rw [Machine.semAdd_toNat (by simp only [TOTALSEM]; omega)] at hnat
        omega
      · rw [Machine.semAdd_toNat (by simp only [TOTALSEM]; omega)] at hnat
        omega
    have hsame := congrFun (hmem.symm.trans hserved.signalled) (deviceSemaphore M (c.taken e).data line)
    rw [Function.update_self, Function.update_of_ne hne.symm] at hsame
    simp [Data.acked] at hsame
  · intro hzero
    obtain rfl : device = 0 := by
      by_contra hne
      have hclear := hdevice.lowest 0 (Nat.pos_of_ne_zero hne)
      rw [hzero] at hclear
      exact absurd hclear (by simp)
    rw [hbitMap, if_pos ((and_DEVICEZERO _).mpr hzero)] at hindex
    -- the direction is the one that the handler reads off the transmitter status
    obtain ⟨direction, hdirection, hoffset, hackFor⟩ : ∃ direction,
        (direction = 0 ∨ direction = 1 ∧ line = TERMINT) ∧
        ackOffset (c.taken e).data line (deviceIndex (c.taken e).data line) = DEVPERINT * direction ∧
        ∀ r, r = (c.taken e).data.devreg (deviceIndex (c.taken e).data line) →
          r.acked line = r.ackFor line direction := by
      unfold ackOffset Device.acked Device.ackFor
      by_cases hterminal : line = TERMINT
      · by_cases hstatus : ((c.taken e).data.devreg
            (deviceIndex (c.taken e).data line)).t_transm_status &&& 15#32 = READY
        · refine ⟨1, Or.inr ⟨rfl, hterminal⟩, by simp [hterminal, hterminal ▸ hstatus], ?_⟩
          rintro r rfl
          simp [hstatus]
        · refine ⟨0, Or.inl rfl, by simp [hterminal, hterminal ▸ hstatus], ?_⟩
          rintro r rfl
          simp [hterminal, hterminal ▸ hstatus]
      · exact ⟨0, Or.inl rfl, by simp [hterminal], fun r _ => by simp [hterminal]⟩
    have hdir : direction ≤ 1 := by omega
    have hsem : deviceSemaphore M (c.taken e).data line = waitSemaphore M line 0 direction := by
      rw [waitSemaphore_eq hlo]
      unfold deviceSemaphore
      rw [hoffset, hindex]
      congr 2
      simp only [DEVPERINT]
      omega
    have hblocked : ∀ a, c.kernel.heap.blockedOn a = q.waiting a := hlive.represents.blockedOn_eq
    have hreadyList : c.kernel.heap.readyList = q.ready := hlive.represents.readyList_eq
    rw [hsem] at hrun hrep' hmem hreleased hready hothers hdevreg
    refine ⟨direction, _, hdirection, hrun,
      fun n => run_ioTrapHandler_device (harea ▸ hline) hlo hrun, ?_, hmem, ?_, ?_, fun a ha => ?_⟩
    · rw [hdevreg, ← hackFor _ (congrArg _ hindex.symm), ← hindex]
      rfl
    · rw [hrep'.blockedOn_eq, hreleased, hmem, Function.update_self]
      show _ = if _ then (c.kernel.heap.blockedOn _).tail else c.kernel.heap.blockedOn _
      rw [hblocked]
    · rw [hrep'.readyList_eq, hready, hmem, Function.update_self]
      show _ = c.kernel.heap.readyList ++ if _ then (c.kernel.heap.blockedOn _).take 1 else []
      rw [hblocked, hreadyList]
    · rw [hrep'.blockedOn_eq, hothers a ha]
      exact (hblocked a).symm

/-- A disk interrupt with the given pending devices. -/
def diskInterrupt (bitMap : Word) : Entry :=
  smallBoot.interrupt LINETHREE bitMap fun _ => ⟨1, 0, 0, 0⟩

theorem servesDevice_iff_small : ServesDevice smallMachine smallBoot (diskInterrupt 3) DISKINT 0 ↔
    ((3 : Word).getLsbD 0 = true) :=
  servesDevice_iff smallBoot_reachable (.interrupt (by decide +kernel)) rfl (by decide) (by decide)
    ⟨by decide, by decide, by decide⟩

/-- An interrupt of disk 1 is taken for one of tape 0. -/
theorem not_always_servesDevice :
    ¬ ∀ (M : Machine) (c : Config) (e : Entry) (line device : Nat), (nucleus M).Reachable c →
      Legal M c e → e.exception = .INTERRUPT → pendingLine e.state.s_cause = some line →
      DISKINT ≤ line → LowestPending (e.interrupt_dev (line - DEVNOSEM)) device →
      ServesDevice M c e line device := by
  intro hall
  obtain ⟨direction, k, -, hrun, -, hserved⟩ := hall smallMachine smallBoot (diskInterrupt 2) DISKINT 1
    smallBoot_reachable (.interrupt (by decide +kernel)) rfl (by decide) (by decide)
    ⟨by decide, by decide, by decide⟩
  have htape : (Config.of ((deviceInterrupt smallMachine DISKINT).run
      (smallBoot.taken (diskInterrupt 2)))).kernel.data.devreg 8 = ⟨1, 1, 0, 0⟩ := by decide +kernel
  rw [hrun] at htape
  have hsame := congrFun hserved.acked 8
  rw [Function.update_of_ne (by decide)] at hsame
  exact absurd (hsame.symm.trans htape) (by decide)

end Kaya
