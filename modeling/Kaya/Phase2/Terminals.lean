import Kaya.Phase2.IoStatus
import Kaya.Phase2.SemaphoreRuns

open Links Exec

namespace Kaya

/-- The two parts of a terminal. Each has a status and a command word of its own in
the device register, and its own semaphore. -/
inductive SubDevice where
  | transmitter
  | receiver
  deriving DecidableEq, Repr

/-- The argument of SYS8 that stands for it. -/
def SubDevice.direction : SubDevice → Nat
  | transmitter => 0
  | receiver => 1

namespace Device

def statusOf (r : Device) : SubDevice → Word
  | .transmitter => r.t_transm_status &&& 0xF
  | .receiver => r.t_recv_status &&& 0xF

def commandOf (r : Device) : SubDevice → Word
  | .transmitter => r.d_data1
  | .receiver => r.d_command

def Busy (r : Device) (sub : SubDevice) : Prop := r.statusOf sub = BUSY

/-- A transfer has ended, with or without an error, and has not been acknowledged. -/
def Completed (r : Device) (sub : SubDevice) : Prop :=
  r.statusOf sub ∉ [UNINSTALLED, READY, BUSY]

/-- The part that the interrupt handler takes for the one that has completed. -/
def chosen (r : Device) : SubDevice :=
  if r.statusOf .transmitter = READY then .receiver else .transmitter

instance (r : Device) (sub : SubDevice) : Decidable (r.Busy sub) :=
  inferInstanceAs (Decidable (_ = _))

instance (r : Device) (sub : SubDevice) : Decidable (r.Completed sub) :=
  inferInstanceAs (Decidable (_ ∉ _))

variable {r : Device} {sub : SubDevice}

theorem commandOf_acked : (r.acked TERMINT).commandOf sub =
    if sub = r.chosen then ACK else r.commandOf sub := by
  unfold acked chosen
  by_cases hready : r.statusOf .transmitter = READY
  · have hready' : r.t_transm_status &&& 0xF = READY := hready
    rw [if_pos hready, if_neg fun hne => hne.2 hready']
    cases sub <;> rfl
  · have hready' : r.t_transm_status &&& 0xF ≠ READY := hready
    rw [if_neg hready, if_pos ⟨rfl, hready'⟩]
    cases sub <;> rfl

end Device

/-- The index of the register of a terminal. -/
def terminalReg (device : Nat) : Nat := DEVPERINT * (TERMINT - DEVNOSEM) + device

def terminalSemaphore (M : Machine) (device : Nat) (sub : SubDevice) : Word :=
  waitSemaphore M TERMINT device sub.direction

def terminalChannel (device : Nat) (sub : SubDevice) : Channel :=
  (terminalReg device, DEVPERINT * sub.direction)

/-- A SYS8 for the part of the terminal. -/
def Entry.awaits (e : Entry) (device : Nat) (sub : SubDevice) : Prop :=
  e.calls WAITIO ∧ e.channel = terminalChannel device sub

instance (e : Entry) (device : Nat) (sub : SubDevice) : Decidable (e.awaits device sub) :=
  inferInstanceAs (Decidable (_ ∧ _))

/-- How far a transfer has come: it has been started by a process that has not
executed its SYS8 yet, its process has, or it has been acknowledged before that. -/
inductive Transfer where
  | idle
  | started
  | awaited
  | acknowledged
  deriving DecidableEq, Repr

namespace Transfer

def await : Transfer → Transfer
  | .started => .awaited
  | .acknowledged => .idle
  | t => t

def acknowledge : Transfer → Transfer
  | .started => .acknowledged
  | .awaited => .idle
  | t => t

/-- What the semaphore is while the transfer has come so far. A process that waits may
be killed. -/
def Stands (s : Semaphore) : Transfer → Prop
  | .idle | .started => s.value = 0 ∧ s.waiting = []
  | .awaited => s.value = -1 ∧ s.waiting.length ≤ 1
  | .acknowledged => s.value = 1 ∧ s.waiting = []

variable {t : Transfer} {s : Semaphore} {p : Pid}

theorem Stands.await (ht : t = .started ∨ t = .acknowledged) (hs : t.Stands s) :
    t.await.Stands (s.wait p) ∧ (p ∉ (s.wait p).waiting → t = .acknowledged) := by
  rcases ht with rfl | rfl
  · obtain ⟨hvalue, hnone⟩ := hs
    rw [Semaphore.wait_block (by rw [hvalue]; decide)]
    exact ⟨⟨by simp [hvalue], by simp [hnone]⟩, fun hp => absurd (by simp) hp⟩
  · obtain ⟨hvalue, hnone⟩ := hs
    rw [Semaphore.wait_pass (by rw [hvalue]; decide)]
    exact ⟨⟨by simp [hvalue], hnone⟩, fun _ => rfl⟩

theorem Stands.acknowledge (ht : t = .started ∨ t = .awaited) (hs : t.Stands s) :
    t.acknowledge.Stands s.signal ∧ (s.value + 1).toInt ≤ 1 ∧
      (s.waiting ≠ [] → (s.value + 1).toInt ≤ 0) ∧ s.waiting.length ≤ 1 := by
  rcases ht with rfl | rfl
  · obtain ⟨hvalue, hnone⟩ := hs
    rw [Semaphore.signal_nobody (Or.inr hnone)]
    exact ⟨⟨by simp [hvalue], hnone⟩, by rw [hvalue]; decide, fun hne => absurd hnone hne,
      by simp [hnone]⟩
  · obtain ⟨hvalue, hlength⟩ := hs
    have hzero : (s.value + 1).toInt = 0 := by
      rw [hvalue]
      decide
    rw [Semaphore.signal_wake hzero.le]
    refine ⟨⟨by simp [hvalue], ?_⟩, by omega, fun _ => hzero.le, hlength⟩
    rw [← List.length_eq_zero_iff, List.length_tail]
    show s.waiting.length - 1 = 0
    omega

theorem Stands.filter {l : List Pid} (hs : t.Stands s) :
    t.Stands ⟨s.value, s.waiting.filter (· ∉ l)⟩ := by
  cases t with
  | awaited => exact ⟨hs.1, (List.length_filter_le _ _).trans hs.2⟩
  | idle => exact ⟨hs.1, by simp [hs.2]⟩
  | started => exact ⟨hs.1, by simp [hs.2]⟩
  | acknowledged => exact ⟨hs.1, by simp [hs.2]⟩

end Transfer

abbrev Transfers : Type := Nat → SubDevice → Transfer

def Transfers.idle : Transfers := fun _ _ => .idle

def Transfers.start (device : Nat) (sub : SubDevice) (ts : Transfers) : Transfers :=
  Function.update ts device (Function.update (ts device) sub .started)

/-- The transfers after an exception: what the handler has acknowledged is known from
the register that it has written. -/
def Transfers.after (c : Config) (e : Entry) (ts : Transfers) : Transfers := fun device sub =>
  if e.awaits device sub then (ts device sub).await
  else if (acknowledged c e).map Prod.fst = some (terminalChannel device sub) then
    (ts device sub).acknowledge
  else ts device sub

/-- The registers and the bitmap of the terminals when an interrupt is handled. -/
structure Wired (ts : Transfers) (e : Entry) : Prop where
  active : ∀ device < DEVPERINT, ∀ sub, (ts device sub = .started ∨ ts device sub = .awaited) ↔
    (e.devreg (terminalReg device)).Busy sub ∨ (e.devreg (terminalReg device)).Completed sub
  pending : ∀ device < DEVPERINT, (e.interrupt_dev (TERMINT - DEVNOSEM)).getLsbD device = true →
    (∃ sub, (e.devreg (terminalReg device)).Completed sub) ∧
      ∀ sub, (e.devreg (terminalReg device)).statusOf sub ≠ UNINSTALLED

instance (P : SubDevice → Prop) [DecidablePred P] : Decidable (∀ sub, P sub) :=
  decidable_of_iff (P .transmitter ∧ P .receiver)
    ⟨fun h sub => by cases sub; exacts [h.1, h.2], fun h => ⟨h _, h _⟩⟩

instance (P : SubDevice → Prop) [DecidablePred P] : Decidable (∃ sub, P sub) :=
  decidable_of_iff (P .transmitter ∨ P .receiver)
    ⟨fun h => h.elim (⟨_, ·⟩) (⟨_, ·⟩), fun ⟨sub, h⟩ => by cases sub; exacts [Or.inl h, Or.inr h]⟩

instance (ts : Transfers) (e : Entry) : Decidable (Wired ts e) :=
  decidable_of_iff ((∀ device < DEVPERINT, ∀ sub,
      (ts device sub = .started ∨ ts device sub = .awaited) ↔
        (e.devreg (terminalReg device)).Busy sub ∨ (e.devreg (terminalReg device)).Completed sub) ∧
      ∀ device < DEVPERINT, (e.interrupt_dev (TERMINT - DEVNOSEM)).getLsbD device = true →
        (∃ sub, (e.devreg (terminalReg device)).Completed sub) ∧
          ∀ sub, (e.devreg (terminalReg device)).statusOf sub ≠ UNINSTALLED)
    ⟨fun h => ⟨h.1, h.2⟩, fun h => ⟨h.active, h.pending⟩⟩

/-- What happens: a running process starts a transfer, or an exception occurs. -/
inductive TerminalEvent where
  | start (device : Nat) (sub : SubDevice)
  | enter (e : Entry)

/-- The nucleus and its terminals. On each part of a terminal one transfer is started at
a time, and who executes a SYS8 for it has started one. -/
def terminals (M : Machine) : System (Config × Transfers) TerminalEvent where
  init s := (nucleus M).init s.1 ∧ s.2 = .idle
  step s event s' := match event with
    | .start device sub => device < DEVPERINT ∧ s.1.stop.isLDST = true ∧ s.2 device sub = .idle ∧
        s' = (s.1, s.2.start device sub)
    | .enter e => (nucleus M).step s.1 e s'.1 ∧ (e.exception = .INTERRUPT → Wired s.2 e) ∧
        (∀ device < DEVPERINT, ∀ sub, e.awaits device sub →
          s.2 device sub = .started ∨ s.2 device sub = .acknowledged) ∧
        s'.2 = s.2.after s.1 e

/-- The part of the terminal has been acknowledged and its semaphore V'd, and who waited
for it goes on. -/
structure Attended (M : Machine) (device : Nat) (sub : SubDevice) (c : Config) (c' : Config) :
    Prop where
  command : (c'.kernel.data.devreg (terminalReg device)).commandOf sub = ACK
  value : c'.kernel.data.mem (terminalSemaphore M device sub) =
    c.kernel.data.mem (terminalSemaphore M device sub) + 1
  released : ∀ p ∈ c.kernel.heap.blockedOn (terminalSemaphore M device sub),
    p ∈ c'.kernel.heap.readyList ∨ c'.kernel.data.currentProcess = .to p

/-- It has neither been acknowledged nor signalled, and nobody who waits for it goes on;
he may be killed. -/
structure LeftAlone (M : Machine) (device : Nat) (sub : SubDevice) (c : Config) (e : Entry)
    (c' : Config) : Prop where
  command : (c'.kernel.data.devreg (terminalReg device)).commandOf sub =
    (e.devreg (terminalReg device)).commandOf sub
  value : c'.kernel.data.mem (terminalSemaphore M device sub) =
    c.kernel.data.mem (terminalSemaphore M device sub) - if e.awaits device sub then 1 else 0
  waiting : ∀ p ∈ c.kernel.heap.blockedOn (terminalSemaphore M device sub),
    p ∈ c'.kernel.heap.blockedOn (terminalSemaphore M device sub) ∨ p ∈ c'.kernel.heap.freeList

/-- What the terminals are promised in a step. -/
structure TerminalsServed (M : Machine) (s : Config × Transfers) (e : Entry) (c' : Config) : Prop where
  /-- A terminal interrupt is for a part of a pending terminal that has completed. -/
  serves : e.exception = .INTERRUPT → pendingLine e.state.s_cause = some TERMINT →
    ∃ device < DEVPERINT, (e.interrupt_dev (TERMINT - DEVNOSEM)).getLsbD device = true ∧
      ∃ sub, (e.devreg (terminalReg device)).Completed sub ∧ Attended M device sub s.1 c'
  /-- Nothing happens to the parts that have not completed. -/
  spares : ∀ device < DEVPERINT, ∀ sub,
    ¬ (e.exception = .INTERRUPT ∧ (e.devreg (terminalReg device)).Completed sub) →
    LeftAlone M device sub s.1 e c'
  /-- A SYS8 returns at once only if the transfer has been acknowledged. -/
  passes : ∀ device < DEVPERINT, ∀ sub, e.awaits device sub → ∀ p,
    s.1.kernel.data.currentProcess = .to p →
    p ∉ c'.kernel.heap.blockedOn (terminalSemaphore M device sub) → s.2 device sub = .acknowledged

/-- The condition on the exceptions: printer and terminal interrupts come from the device
with number 0, a terminal interrupt not while its transmitter is busy, and P, V and the
areas of trap handlers stay clear of the semaphores of the nucleus. -/
structure Unmixed (M : Machine) (c : Config) (e : Entry) : Prop where
  first : e.exception = .INTERRUPT → ∀ line, pendingLine e.state.s_cause = some line →
    PRNTINT ≤ line → (e.interrupt_dev (line - DEVNOSEM)).getLsbD 0 = true
  transmitter : e.exception = .INTERRUPT → pendingLine e.state.s_cause = some TERMINT →
    ¬ (e.devreg (terminalReg 0)).Busy .transmitter
  outside : e.Outside M
  areas : ∀ p, c.kernel.data.currentProcess = .to p → ∀ (type : TrapType) (f : Field),
    ¬ M.onDevice (f.addr (c.kernel.heap.pcb_states p type .OLD))

end Kaya
