import Kaya.Phase2.Causes
import Kaya.Phase2.Script

open Links Exec

namespace Kaya

variable {M : Machine} {q q' : Queues} {d d' : Data} {p x c : Pid} {l rest : List Pid}
  {n : Nucleus} {next : Next} {a : Word}

/-- `a` is the address of a device semaphore or of the clock semaphore. -/
def Machine.onDevice (M : Machine) (a : Word) : Prop :=
  ∃ i < TOTALSEM, a = M.semAdd (BitVec.ofNat 32 i)

instance : Decidable (M.onDevice a) := inferInstanceAs (Decidable (∃ i, i < TOTALSEM ∧ _))

/-- The `int` behind the array of semaphores. -/
def Machine.semEnd (M : Machine) : Word := M.semAdd TOTALSEM

theorem Machine.semAdd_toNat {i : Nat} (hi : i ≤ TOTALSEM) :
    (M.semAdd (BitVec.ofNat 32 i)).toNat = M.sem.toNat + 4 * i := by
  have hfits := M.sem_fits
  have hmax : MAXINT.toNat = 0xEFFFFFFF := rfl
  rw [Machine.semAdd_ofNat, BitVec.toNat_add, BitVec.toNat_ofNat]
  omega

/-- The range test takes one address too many. -/
theorem deviceRange_iff (ha : M.writable a = true) :
    deviceRange M a ↔ M.onDevice a ∨ a = M.semEnd := by
  have hfits := M.sem_fits
  have hmax : MAXINT.toNat = 0xEFFFFFFF := rfl
  have haligned := M.aligned a (M.readable_of_writable a ha)
  have hsem : M.sem.toNat % 4 = 0 := by
    have hw := M.sem_writable 0 (by decide)
    simpa using M.aligned _ (M.readable_of_writable _ hw)
  have hlo : (M.semAdd 0).toNat = M.sem.toNat := M.semAdd_toNat (i := 0) (by decide)
  have hhi : M.semEnd.toNat = M.sem.toNat + 4 * TOTALSEM := M.semAdd_toNat le_rfl
  have hrange : deviceRange M a ↔ M.sem.toNat ≤ a.toNat ∧ a.toNat ≤ M.sem.toNat + 4 * TOTALSEM := by
    rw [← hhi, ← hlo]
    rfl
  rw [hrange]
  constructor
  · rintro ⟨hle, hle'⟩
    by_cases hlast : a.toNat = M.sem.toNat + 4 * TOTALSEM
    · exact Or.inr (BitVec.eq_of_toNat_eq (hlast.trans hhi.symm))
    · refine Or.inl ⟨(a.toNat - M.sem.toNat) / 4, by omega, BitVec.eq_of_toNat_eq ?_⟩
      rw [M.semAdd_toNat (by omega)]
      omega
  · rintro (⟨i, hi, rfl⟩ | rfl)
    · rw [M.semAdd_toNat hi.le]
      omega
    · omega

theorem Machine.onDevice_clock : M.onDevice (clockSemaphore M) := ⟨48, by decide, rfl⟩

theorem Machine.onDevice_deviceSemaphore {line : Nat} (hhi : line ≤ TERMINT) :
    M.onDevice (deviceSemaphore M d line) := by
  refine ⟨_, ?_, rfl⟩
  rw [deviceIndex_eq]
  unfold ackOffset
  have hline : line ≤ 7 := hhi
  split <;> split <;> simp only [DEVPERINT, DEVNOSEM, TOTALSEM] <;> omega

/-- SYS8 waits for a semaphore of the nucleus. -/
theorem Entry.Arguments.onDevice {e : Entry} (hargs : e.Arguments M) (hcall : e.calls WAITIO) :
    M.onDevice (ioSemaphore M (e.enter d).advance) := by
  refine ⟨_, ?_, hargs.ioSemaphore_eq hcall⟩
  obtain ⟨hlo, hhi, hdev, hdir⟩ := hargs.device hcall.2.2
  simp only [DISKINT, TERMINT, DEVPERINT, DEVNOSEM, TOTALSEM] at *
  rcases hdir with hdir | ⟨hdir, hline⟩
  · rw [hdir, show (0 : Word).toNat = 0 from rfl]
    omega
  · rw [hdir, show (1 : Word).toNat = 1 from rfl]
    omega

namespace Queues

/-- How many processes wait for a device or for the clock. -/
def softCount (M : Machine) (q : Queues) : Nat :=
  (FifoMap.values q.asl).countP (M.onDevice <| q.semAdd ·)

theorem softCount_congr (hvalues : FifoMap.values q'.asl = FifoMap.values q.asl)
    (hsemAdd : ∀ x ∈ FifoMap.values q.asl, q'.semAdd x = q.semAdd x) :
    q'.softCount M = q.softCount M := by
  unfold softCount
  rw [hvalues]
  refine List.countP_congr fun x hx => ?_
  rw [hsemAdd x hx]

theorem softCount_block (hp : p ∉ FifoMap.values q.asl) :
    (q.block a p).softCount M = q.softCount M + if M.onDevice a then 1 else 0 := by
  have hperm : (FifoMap.values (q.block a p).asl).Perm (p :: FifoMap.values q.asl) :=
    FifoMap.values_enqueue
  unfold softCount
  rw [hperm.countP_eq, List.countP_cons]
  congr 1
  · refine List.countP_congr fun x hx => ?_
    have hne : x ≠ p := fun heq => hp (heq ▸ hx)
    simp [block, hne]
  · simp [block]

theorem softCount_wake (hq : q.WF) (hx : x ∈ FifoMap.values q.asl) :
    q.softCount M = (q.wake x).softCount M + if M.onDevice (q.semAdd x) then 1 else 0 := by
  have hvalues : FifoMap.values (q.wake x).asl = (FifoMap.values q.asl).erase x := by
    show FifoMap.values (FifoMap.restrict _ q.asl) = _
    rw [FifoMap.values_restrict, hq.values_nodup.erase_eq_filter]
    simp [bne, BEq.beq]
  unfold softCount
  rw [hvalues, (List.perm_cons_erase hx).countP_eq, List.countP_cons]
  congr 1
  · refine List.countP_congr fun y hy => ?_
    have hne : y ≠ x := (hq.values_nodup.mem_erase_iff.mp hy).1
    simp [wake, makeReady, unblock, hne]
  · simp

theorem softCount_create (hq : q.WF) (hfree : q.free = c :: rest) :
    (q.create p c).softCount M = q.softCount M := by
  refine softCount_congr rfl fun x hx => ?_
  have hne : x ≠ c := by
    rintro rfl
    exact hq.not_blocked_of_free (by simp [hfree]) hx
  simp [create, makeReady, adopt, alloc, hne]

/-- Killing the processes of `l` takes those of them out of the count that wait
for a device or for the clock. -/
theorem softCount_erase (hq : q.WF) (hkeys : ∀ e ∈ q.asl, M.writable e.1) (hl : l.Nodup)
    (hlive : ∀ x ∈ l, x ∉ q.free) (hlast : ∀ x ∈ l, x ∉ q.waiting M.semEnd) :
    q.softCount M = (q.erase l).softCount M + l.countP (softBlocked M q ·) := by
  have hvalues : FifoMap.values (q.erase l).asl = (FifoMap.values q.asl).filter (· ∉ l) :=
    FifoMap.values_restrict
  have hrest : (q.erase l).softCount M =
      ((FifoMap.values q.asl).filter (M.onDevice <| q.semAdd ·)).countP (· ∉ l) := by
    unfold softCount
    rw [hvalues, List.countP_filter, List.countP_filter]
    refine List.countP_congr fun x _ => ?_
    by_cases hxl : x ∈ l <;> simp [erase, hxl]
  have hsoft : ∀ x ∈ l, softBlocked M q x ↔
      x ∈ FifoMap.values q.asl ∧ M.onDevice (q.semAdd x) := by
    intro x hxl
    unfold softBlocked
    rw [Ne, hq.semAdd_eq_NULL_iff (hlive x hxl), not_not]
    refine and_congr_right fun hx => ?_
    have hwait := hq.mem_waiting_semAdd hx
    have hw : M.writable (q.semAdd x) = true :=
      hkeys _ (FifoMap.mem_of_queue_ne_nil (List.ne_nil_of_mem hwait))
    rw [deviceRange_iff hw]
    refine or_iff_left fun hend => ?_
    rw [hend] at hwait
    exact hlast x hxl hwait
  have hkilled : l.countP (softBlocked M q ·) =
      ((FifoMap.values q.asl).filter (M.onDevice <| q.semAdd ·)).countP (· ∈ l) := by
    rw [List.countP_eq_length_filter, List.countP_eq_length_filter]
    refine List.Perm.length_eq ?_
    refine (List.perm_ext_iff_of_nodup (hl.filter _) ((hq.values_nodup.filter _).filter _)).mpr ?_
    intro x
    simp only [List.mem_filter, decide_eq_true_eq]
    constructor
    · rintro ⟨hxl, hx⟩
      exact ⟨(hsoft x hxl).mp hx, hxl⟩
    · rintro ⟨hx, hxl⟩
      exact ⟨hxl, (hsoft x hxl).mpr hx⟩
  rw [hrest, hkilled, Nat.add_comm]
  unfold softCount
  rw [List.countP_eq_length_filter]
  have hsplit := List.length_eq_countP_add_countP (fun x => decide (x ∈ l))
    (l := (FifoMap.values q.asl).filter (M.onDevice <| q.semAdd ·))
  simpa using hsplit

end Queues

/-- `softBlockCount` counts the processes that wait for a device or the clock. -/
def Nucleus.Counted (M : Machine) (n : Nucleus) : Prop :=
  n.data.softBlockCount = n.queues.softCount M

namespace Nucleus

theorem Counted.congr (hn : Counted M ⟨q, d⟩) (hsoft : d'.softBlockCount = d.softBlockCount) :
    Counted M ⟨q, d'⟩ :=
  hsoft.trans hn

theorem Counted.kept (hn : Counted M ⟨q, d⟩) (hsoft : d'.softBlockCount = d.softBlockCount)
    (hcount : q'.softCount M = q.softCount M) : Counted M ⟨q', d'⟩ := by
  unfold Counted at hn ⊢
  rw [hsoft, hcount]
  exact hn

/-- Blocking is counted for the semaphores of the nucleus only. -/
theorem Counted.block (hn : Counted M ⟨q, d⟩) (hp : p ∉ FifoMap.values q.asl)
    (hsoft : d'.softBlockCount = d.softBlockCount + if M.onDevice a then 1 else 0) :
    Counted M ⟨q.block a p, d'⟩ := by
  unfold Counted at hn ⊢
  rw [hsoft, hn, Queues.softCount_block hp]
  split <;> simp

theorem Counted.wake (hn : Counted M ⟨q, d⟩) (hq : q.WF) (hx : x ∈ q.waiting a)
    (hsoft : d'.softBlockCount = d.softBlockCount - if M.onDevice a then 1 else 0) :
    Counted M ⟨q.wake x, d'⟩ := by
  have hcount := Queues.softCount_wake (M := M) hq (Queues.mem_values_of_mem_waiting hx)
  rw [hq.blocked a x hx] at hcount
  unfold Counted at hn ⊢
  simp only at hn ⊢
  by_cases ha : M.onDevice a
  · simp only [ha, if_true] at hcount hsoft
    omega
  · simp only [ha, if_false] at hcount hsoft
    omega

theorem Counted.killed (hn : Counted M ⟨q, d⟩) (hs : Settled M ⟨q, d⟩)
    (hcur : d.currentProcess = .to p) (hl : q.children.Postorder p l)
    (hlast : ∀ x ∈ l, x ∉ q.waiting M.semEnd) : Counted M ⟨q.erase l, d.killed M q l⟩ := by
  have hp : p ∉ q.free := fun hf => hs.unplaced p hcur (Queues.mem_placed.mpr (Or.inl hf))
  have hlive : ∀ x ∈ l, x ∉ q.free := by
    intro x hx
    have hdown := (hl.mem_iff hs.wf.acyclic x).mp hx
    rcases Relation.ReflTransGen.cases_tail hdown with rfl | ⟨y, -, hy⟩
    · exact hp
    · exact fun hf => (hs.wf.unborn x hf).2 y ((hs.wf.child y x).mp hy)
  have hcount := Queues.softCount_erase hs.wf hs.keys (hl.nodup hs.wf.acyclic) hlive hlast
  unfold Counted at hn ⊢
  simp only [Data.killed] at hn ⊢
  rw [hn, hcount]
  push_cast
  omega

theorem Counted.wakeAll (hn : Counted M ⟨q, d⟩) (hs : Settled M ⟨q, d⟩) (ha : M.onDevice a) :
    (Nucleus.wakeAll a ⟨q, d⟩).Counted M := by
  generalize hl : q.waiting a = l
  induction l generalizing q d with
  | nil => rwa [Nucleus.wakeAll_nil hl]
  | cons x rest ih =>
    have hx : x ∈ q.waiting a := by simp [hl]
    rw [Nucleus.wakeAll_cons hs.wf hl]
    refine ih (hn.wake hs.wf hx ?_) (hs.wake (Queues.mem_values_of_mem_waiting hx) rfl rfl)
      (Queues.waiting_wake_head hs.wf hl)
    simp [Data.wake, ha]

theorem Counted.signal (hn : Counted M ⟨q, d⟩) (hs : Settled M ⟨q, d⟩) (ha : M.onDevice a) :
    (Nucleus.signal a ⟨q, d⟩).Counted M := by
  cases hwait : q.waiting a with
  | nil =>
    simp only [Nucleus.signal, hwait]
    exact hn.congr rfl
  | cons x rest =>
    have hx : x ∈ q.waiting a := by simp [hwait]
    simp only [Nucleus.signal, hwait]
    split
    · refine hn.wake hs.wf hx ?_
      simp [Data.addSoftBlock, Data.setMem, ha, Int.sub_eq_add_neg]
    · exact hn.congr rfl

theorem Counted.preempt (hn : n.Counted M) : n.preempt.Counted M := by
  unfold Nucleus.preempt
  split
  · exact hn
  · exact hn

end Nucleus

theorem Service.counted {call : Int} (hs : Nucleus.Settled M ⟨q, d⟩)
    (hn : Nucleus.Counted M ⟨q, d⟩) (hact : Service M q d call n next)
    (hsem : call = 3 ∨ call = 4 → ¬ M.onDevice (d.arg s_a1))
    (hdevice : call = 8 → M.onDevice (ioSemaphore M d))
    (hkill : ∀ p l, d.currentProcess = .to p → q.children.Postorder p l →
      (call = 2 ∨ call = 5 ∧ ∃ type, TrapType.ofWord (d.arg s_a1) = some type ∧
        q.states p type .NEW ≠ NULL) → ∀ x ∈ l, x ∉ q.waiting M.semEnd) : n.Counted M := by
  have hidle : ∀ p, d.currentProcess = .to p → p ∉ FifoMap.values q.asl := fun p hcur hp =>
    hs.unplaced p hcur (Queues.mem_placed.mpr (Or.inr (Or.inr hp)))
  cases hact with
  | create _ hfree _ => exact hn.kept rfl (Queues.softCount_create hs.wf hfree)
  | createFault _ hfree _ => exact hn.kept rfl (Queues.softCount_create hs.wf hfree)
  | createFull _ => exact hn.congr rfl
  | terminate hcur hl => exact hn.killed hs hcur hl (hkill _ _ hcur hl (Or.inl rfl))
  | signalFault _ => exact hn
  | signal _ _ _ => exact hn.congr rfl
  | @signalWake x rest v _ _ _ hwait =>
    have hx : x ∈ q.waiting (d.arg s_a1) := by simp [hwait]
    refine hn.wake hs.wf hx ?_
    simp [Data.setMem, hsem (Or.inl rfl)]
  | waitFault _ => exact hn
  | wait _ _ _ => exact hn.congr rfl
  | waitBlock _ _ _ hcur =>
    refine hn.block (hidle _ hcur) ?_
    simp [Data.save, Data.setMem, hsem (Or.inr rfl)]
  | waitNobody _ _ _ _ => exact hn.congr rfl
  | sesvKill hcur htype hnew hl =>
    exact hn.killed hs hcur hl (hkill _ _ hcur hl (Or.inr ⟨rfl, _, htype, hnew⟩))
  | sesv _ _ _ => exact hn.kept rfl rfl
  | getTime _ => exact hn.congr rfl
  | clock _ _ => exact hn.congr rfl
  | clockBlock _ _ hcur =>
    refine hn.block (hidle _ hcur) ?_
    simp [Data.save, Data.setMem, Data.addSoftBlock, Machine.onDevice_clock]
  | ioFault _ => exact hn
  | io _ _ _ => exact hn.congr rfl
  | ioBlock _ _ _ hcur =>
    refine hn.block (hidle _ hcur) ?_
    simp [Data.save, Data.setMem, Data.addSoftBlock, hdevice rfl]
  | ioNobody _ _ _ _ => exact hn.congr rfl
  | nobody _ _ => exact hn

theorem PullUp.counted {type : TrapType} (hs : Nucleus.Settled M ⟨q, d⟩)
    (hn : Nucleus.Counted M ⟨q, d⟩) (hact : PullUp M q d type n next)
    (hkill : ∀ p l, d.currentProcess = .to p → q.children.Postorder p l →
      q.states p type .NEW = NULL →
      M.readable (Field.s_cause.addr (q.states p type .OLD)) = true →
      ∀ x ∈ l, x ∉ q.waiting M.semEnd) : n.Counted M := by
  cases hact with
  | nobody _ => exact hn
  | oldFault _ _ => exact hn
  | die hcur hold hnew hl => exact hn.killed hs hcur hl (hkill _ _ hcur hl hnew hold)
  | copyFault _ _ _ _ _ => exact hn.congr rfl
  | loadFault _ _ _ _ => exact hn.congr rfl
  | passUp _ _ _ _ => exact hn.congr rfl

theorem Interrupt.counted {cause : Word} (hs : Nucleus.Settled M ⟨q, d⟩)
    (hn : Nucleus.Counted M ⟨q, d⟩) (hact : Interrupt M q d cause n next) : n.Counted M := by
  cases hact with
  | panic _ => exact hn
  | quantum _ => exact hn.preempt
  | clock _ _ =>
    have hs' : Nucleus.Settled M ⟨q, { d with intervalTimer := INTTIME }⟩ := hs.congr rfl rfl
    have hn' : Nucleus.Counted M ⟨q, { d with intervalTimer := INTTIME }⟩ := hn.congr rfl
    have hwoken := hn'.wakeAll hs' Machine.onDevice_clock
    exact Nucleus.Counted.preempt (Nucleus.Counted.congr hwoken rfl)
  | @device line _ _ hhi =>
    have hs' : Nucleus.Settled M ⟨q, d.acked line (deviceIndex d line)⟩ := hs.congr rfl rfl
    exact Nucleus.Counted.preempt (.signal (hn.congr rfl) hs' (Machine.onDevice_deviceSemaphore hhi))

end Kaya
