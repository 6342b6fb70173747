import Kaya.Phase2.RoundRobin

open Links Exec

namespace Kaya

variable (M : Machine)

/-- The semaphore of a system call that can block its caller. -/
def Entry.waitsOn (e : Entry) : Option Word :=
  if e.calls PASSEREN then some (e.state.s_reg s_a1)
  else if e.calls WAITCLOCK then some (clockSemaphore M)
  else if e.calls WAITIO then
    some (M.semAdd ((e.state.s_reg s_a1 - 3 + e.state.s_reg s_a3) * 8 + e.state.s_reg s_a2))
  else none

/-- A SYS4, SYS7 or SYS8 that blocks its caller. -/
def Entry.blocks (e : Entry) : Prop :=
  ∃ a, e.waitsOn M = some a ∧ M.writable a = true ∧ (e.mem a - 1).toInt < 0

instance (e : Entry) : Decidable (e.blocks M) :=
  decidable_of_iff ((e.waitsOn M).any fun a => M.writable a && decide ((e.mem a - 1).toInt < 0))
    (by simp [Entry.blocks, Option.any_eq_true])

/-- The state that `p` is to continue with, if the exception gives it one: its
own in an interrupt and behind a blocking call, and for a new process the one that
SYS1 has been given, if that can be read. -/
def given (c : Config) (e : Entry) (p : Pid) : Option (Option State) :=
  if c.kernel.data.currentProcess = .to p then
    if e.exception = .INTERRUPT then some (some e.state)
    else if e.blocks M then some (some (e.state.set .s_pc (e.state.s_pc + 4)))
    else none
  else if e.calls CREATE_PROCESS ∧ c.kernel.data.currentProcess ≠ .null ∧
      c.kernel.heap.freeList.head? = some p then
    some (if M.readableState (e.state.s_reg s_a1) then
      some (stateAt e.mem (e.state.s_reg s_a1)) else none)
  else none

/-- The state that `p` has been given last in a run; `main` gives one to the first
process. -/
def lastGiven (p : Pid) : List (Config × Entry) → Option (Option State)
  | [] => if p = firstPid then some (some (firstState M)) else none
  | (c, e) :: l => (given M c e p).or (lastGiven p l)

/-- A process that waits to be dispatched or woken. -/
def Queues.Waits (q : Queues) (p : Pid) : Prop := p ∈ q.ready ∨ p ∈ FifoMap.values q.asl

/-- The states of the waiting processes are those of `f`, as far as they could be
read. -/
def Nucleus.Keeps (f : Pid → Option (Option State)) (n : Nucleus) : Prop :=
  ∀ p, n.queues.Waits p → f p = some none ∨ f p = some (some (n.data.pcb_state p))

variable {M : Machine} {h : Heap} {q q' : Queues} {d d' : Data} {c c' : Config} {e : Entry}
  {n : Nucleus} {next : Next} {p x : Pid} {f : Pid → Option (Option State)} {l : List (Config × Entry)}

theorem Queues.waits_makeReady : (q.makeReady x).Waits p ↔ p = x ∨ q.Waits p := by
  simp [Queues.Waits, Queues.makeReady]
  tauto

theorem Queues.waits_wake (hx : x ∈ FifoMap.values q.asl) :
    (q.wake x).Waits p ↔ q.Waits p := by
  have hvalues : ∀ y, y ∈ FifoMap.values (q.unblock x).asl ↔ y ∈ FifoMap.values q.asl ∧ y ≠ x := by
    intro y
    rw [Queues.values_unblock, List.mem_filter]
    simp
  have hwaits : (q.unblock x).Waits p ↔ p ∈ q.ready ∨ (p ∈ FifoMap.values q.asl ∧ p ≠ x) :=
    or_congr Iff.rfl (hvalues p)
  rw [Queues.wake, Queues.waits_makeReady, hwaits]
  unfold Queues.Waits
  by_cases hp : p = x
  · simp [hp, hx]
  · simp [hp]

theorem Queues.waits_block {a : Word} : (q.block a x).Waits p ↔ p = x ∨ q.Waits p := by
  have hvalues : p ∈ FifoMap.values (q.block a x).asl ↔ p ∈ x :: FifoMap.values q.asl :=
    FifoMap.values_enqueue.mem_iff
  unfold Queues.Waits
  rw [hvalues, List.mem_cons]
  exact or_left_comm

theorem Queues.waits_erase {d : List Pid} (hp : (q.erase d).Waits p) : q.Waits p := by
  refine hp.imp (fun hp => (List.mem_filter.mp hp).1) fun hp => ?_
  rw [Queues.erase, FifoMap.values_restrict] at hp
  exact (List.mem_filter.mp hp).1

/-- Who waits is given nothing. -/
theorem given_waits (hlive : c.Live M q) (hp : q.Waits p) : given M c e p = none := by
  have hplaced : p ∈ q.placed := Queues.mem_placed.mpr (Or.inr hp)
  have hcur : c.kernel.data.currentProcess ≠ .to p := fun hcur =>
    hlive.settled.unplaced p hcur hplaced
  have hfree : p ∉ q.free := fun hf => by
    rcases hp with hp | hp
    · exact hlive.settled.wf.not_ready_of_free hf hp
    · exact hlive.settled.wf.not_blocked_of_free hf hp
  unfold given
  rw [if_neg hcur, if_neg]
  rintro ⟨-, -, hhead⟩
  rw [hlive.represents.freeList_eq hlive.settled.wf.free_nodup] at hhead
  exact hfree (List.mem_of_head? hhead)

/-- Without a current process nobody is given a state. -/
theorem given_idle (hcur : c.kernel.data.currentProcess = .null) : given M c e p = none := by
  unfold given
  rw [if_neg (by simp [hcur]), if_neg fun h => h.2.1 hcur]

/-- Nobody new waits, and no saved state of a waiting process changes. -/
theorem Nucleus.Keeps.of_waits (hlive : c.Live M q)
    (hkeeps : Nucleus.Keeps f ⟨q, c.kernel.data⟩) (hwaits : ∀ p, n.queues.Waits p → q.Waits p)
    (hstate : ∀ p, q.Waits p → n.data.pcb_state p = c.kernel.data.pcb_state p) :
    n.Keeps fun p => (given M c e p).or (f p) := by
  intro p hp
  dsimp only
  rw [given_waits hlive (hwaits p hp), hstate p (hwaits p hp)]
  exact hkeeps p (hwaits p hp)

/-- One more process waits, with the state it has been given. -/
theorem Nucleus.Keeps.of_new (hlive : c.Live M q)
    (hkeeps : Nucleus.Keeps f ⟨q, c.kernel.data⟩)
    (hwaits : ∀ p, n.queues.Waits p → p = x ∨ q.Waits p)
    (hstate : ∀ p ≠ x, q.Waits p → n.data.pcb_state p = c.kernel.data.pcb_state p)
    (hx : given M c e x = some none ∨ given M c e x = some (some (n.data.pcb_state x))) :
    n.Keeps fun p => (given M c e p).or (f p) := by
  intro p hp
  dsimp only
  by_cases hpx : p = x
  · subst hpx
    rcases hx with hx | hx
    · exact Or.inl (by rw [hx]; rfl)
    · exact Or.inr (by rw [hx]; rfl)
  · have hp' := (hwaits p hp).resolve_left hpx
    rw [given_waits hlive hp', hstate p hpx hp']
    exact hkeeps p hp'

/-- A blocking call gives its caller the state behind the call. -/
theorem given_blocks {a v : Word} (hex : e.exception = .SYSCALL)
    (hcur : c.kernel.data.currentProcess = .to p) (hwaits : e.waitsOn M = some a)
    (hw : M.writable a = true) (hv : v = e.mem a - 1) (hneg : v.toInt < 0) :
    given M c e p = some (some (e.state.set .s_pc (e.state.s_pc + 4))) := by
  unfold given
  rw [if_pos hcur, if_neg (by simp [hex]), if_pos ⟨a, hwaits, hw, hv ▸ hneg⟩]

theorem Entry.waitsOn_io (hcalls : e.calls WAITIO) :
    e.waitsOn M = some (ioSemaphore M (e.enter d).advance) := by
  have hwait : ¬ e.calls PASSEREN := Entry.calls_ne hcalls (by decide)
  have hclock : ¬ e.calls WAITCLOCK := Entry.calls_ne hcalls (by decide)
  unfold Entry.waitsOn ioSemaphore
  rw [if_neg hwait, if_neg hclock, if_pos hcalls]
  simp only [Entry.advance_arg hcalls.1]

/-- The state in the old area when a service runs. -/
theorem Entry.advance_old (hex : e.exception = .SYSCALL) :
    (e.enter d).advance.old .SYSCALLOLDAREA = e.state.set .s_pc (e.state.s_pc + 4) := by
  simp [Data.advance, Entry.enter_syscall hex]

theorem Service.keeps {number : Int} (hlive : c.Live M q)
    (hkeeps : Nucleus.Keeps f ⟨q, c.kernel.data⟩) (hcalls : e.calls number)
    (hact : Service M q (e.enter c.kernel.data).advance number n next) :
    n.Keeps fun p => (given M c e p).or (f p) := by
  have harg : ∀ r, (e.enter c.kernel.data).advance.arg r = e.state.s_reg r := fun _ =>
    Entry.advance_arg hcalls.1
  have hcreates : ∀ {p c' : Pid} {rest : List Pid}, e.calls CREATE_PROCESS →
      c.kernel.data.currentProcess = .to p → q.free = c' :: rest →
      given M c e c' = some (if M.readableState (e.state.s_reg s_a1) then
        some (stateAt e.mem (e.state.s_reg s_a1)) else none) ∧
      ∀ x, (q.create p c').Waits x → x = c' ∨ q.Waits x := by
    intro p c' rest hcalls hcur hfree
    have hmem : c' ∈ q.free := by simp [hfree]
    have hne : c.kernel.data.currentProcess ≠ .to c' := fun heq =>
      hlive.settled.unplaced c' heq (Queues.mem_placed.mpr (Or.inl hmem))
    constructor
    · have hhead : c.kernel.heap.freeList.head? = some c' := by
        rw [hlive.represents.freeList_eq hlive.settled.wf.free_nodup, hfree]
        rfl
      unfold given
      rw [if_neg hne, if_pos ⟨hcalls, by simp [hcur], hhead⟩]
    · exact fun x hx => Queues.waits_makeReady.mp hx
  have hsaved : ∀ {p : Pid} (s : Pid → State), e.state.set .s_pc (e.state.s_pc + 4) =
      Function.update s p ((e.enter c.kernel.data).advance.old .SYSCALLOLDAREA) p := by
    intro p s
    rw [Function.update_self, Entry.advance_old hcalls.1]
  cases hact with
  | @create p c' rest hcur hfree hr =>
    obtain ⟨hgiven, hwaits⟩ := hcreates hcalls hcur hfree
    rw [harg] at hr
    refine .of_new hlive hkeeps hwaits (fun x hx _ => ?_) (Or.inr ?_)
    · exact Function.update_of_ne hx _ _
    · rw [hgiven, if_pos hr, ← harg s_a1]
      exact congrArg (some ∘ some) (Function.update_self c' _ c.kernel.data.pcb_state).symm
  | @createFault p c' rest st hcur hfree hr =>
    obtain ⟨hgiven, hwaits⟩ := hcreates hcalls hcur hfree
    rw [harg] at hr
    refine .of_new hlive hkeeps hwaits (fun x hx _ => ?_) (Or.inl ?_)
    · exact Function.update_of_ne hx _ _
    · rw [hgiven, if_neg (by simp [hr])]
  | terminate hcur hl =>
    exact .of_waits hlive hkeeps (fun _ => Queues.waits_erase) fun _ _ => rfl
  | sesvKill hcur _ _ hl =>
    exact .of_waits hlive hkeeps (fun _ => Queues.waits_erase) fun _ _ => rfl
  | signalWake _ _ _ hwait =>
    have hx := Queues.mem_values_of_mem_waiting (hwait ▸ List.mem_cons_self)
    exact .of_waits hlive hkeeps (fun _ => (Queues.waits_wake hx).mp) fun _ _ => rfl
  | @waitBlock p v hw hv hneg hcur =>
    rw [harg] at hw hv
    refine .of_new hlive hkeeps (fun _ => Queues.waits_block.mp) (fun x hx _ => ?_) (Or.inr ?_)
    · exact Function.update_of_ne hx _ _
    · rw [given_blocks hcalls.1 hcur (by simp [Entry.waitsOn, hcalls]) hw hv hneg]
      exact congrArg (some ∘ some) (hsaved _)
  | @clockBlock p v hv hneg hcur =>
    refine .of_new hlive hkeeps (fun _ => Queues.waits_block.mp) (fun x hx _ => ?_) (Or.inr ?_)
    · exact Function.update_of_ne hx _ _
    · have hwait : ¬ e.calls PASSEREN := Entry.calls_ne hcalls (by decide)
      have hsem : e.waitsOn M = some (clockSemaphore M) := by
        unfold Entry.waitsOn
        rw [if_neg hwait, if_pos hcalls]
      rw [given_blocks hcalls.1 hcur hsem (M.sem_writable 48 (by decide)) hv hneg]
      exact congrArg (some ∘ some) (hsaved _)
  | @ioBlock p v hw hv hneg hcur =>
    refine .of_new hlive hkeeps (fun _ => Queues.waits_block.mp) (fun x hx _ => ?_) (Or.inr ?_)
    · exact Function.update_of_ne hx _ _
    · rw [given_blocks hcalls.1 hcur (Entry.waitsOn_io hcalls) hw hv hneg]
      exact congrArg (some ∘ some) (hsaved _)
  | @getTime p hcur =>
    refine .of_waits hlive hkeeps (fun _ => id) fun x hx => Function.update_of_ne ?_ _ _
    rintro rfl
    exact hlive.settled.unplaced x hcur (Queues.mem_placed.mpr (Or.inr hx))
  | _ => exact .of_waits hlive hkeeps (fun _ => id) fun _ _ => rfl

theorem PullUp.keeps {type : TrapType} (hlive : c.Live M q)
    (hkeeps : Nucleus.Keeps f ⟨q, c.kernel.data⟩) (hstate : d.pcb_state = c.kernel.data.pcb_state)
    (hact : PullUp M q d type n next) : n.Keeps fun p => (given M c e p).or (f p) := by
  cases hact with
  | die _ _ _ _ =>
    exact .of_waits hlive hkeeps (fun _ => Queues.waits_erase) fun _ _ => congrFun hstate _
  | _ => exact .of_waits hlive hkeeps (fun _ => id) fun _ _ => congrFun hstate _

/-- The same processes wait, and nothing that an interrupt saves has changed. -/
structure Nucleus.Same (n n' : Nucleus) : Prop where
  waits : ∀ p, n'.queues.Waits p ↔ n.queues.Waits p
  pcb_state : n'.data.pcb_state = n.data.pcb_state
  current : n'.data.currentProcess = n.data.currentProcess
  old : n'.data.old = n.data.old

theorem Nucleus.Same.wakeAll {a : Word} (hn : Nucleus.Settled M ⟨q, d⟩) :
    Nucleus.Same ⟨q, d⟩ (Nucleus.wakeAll a ⟨q, d⟩) := by
  generalize hl : q.waiting a = l
  induction l generalizing q d with
  | nil =>
    rw [Nucleus.wakeAll_nil hl]
    exact ⟨fun _ => Iff.rfl, rfl, rfl, rfl⟩
  | cons x rest ih =>
    rw [Nucleus.wakeAll_cons hn.wf hl]
    have hx := Queues.mem_values_of_mem_waiting (hl ▸ List.mem_cons_self)
    have hn' : Nucleus.Settled M ⟨q.wake x, d.wake x⟩ := hn.wake hx rfl rfl
    obtain ⟨hwaits, hstate, hcur, hold⟩ := ih hn' (Queues.waiting_wake_head hn.wf hl)
    exact ⟨fun p => (hwaits p).trans (Queues.waits_wake hx), hstate, hcur, hold⟩

theorem Nucleus.Same.signal {a : Word} : Nucleus.Same ⟨q, d⟩ (Nucleus.signal a ⟨q, d⟩) := by
  cases hwait : q.waiting a with
  | nil =>
    simp only [Nucleus.signal, hwait]
    exact ⟨fun _ => Iff.rfl, rfl, rfl, rfl⟩
  | cons x rest =>
    have hx := Queues.mem_values_of_mem_waiting (hwait ▸ List.mem_cons_self)
    simp only [Nucleus.signal, hwait]
    split
    · exact ⟨fun _ => Queues.waits_wake hx, rfl, rfl, rfl⟩
    · exact ⟨fun _ => Iff.rfl, rfl, rfl, rfl⟩

/-- The interrupted process is given the state in the old area. -/
theorem Nucleus.Keeps.preempt (hlive : c.Live M q)
    (hkeeps : Nucleus.Keeps f ⟨q, c.kernel.data⟩) (hex : e.exception = .INTERRUPT)
    (hstate : d.pcb_state = c.kernel.data.pcb_state)
    (hcur : d.currentProcess = c.kernel.data.currentProcess)
    (hold : d.old .INTPOLDAREA = e.state) (hsame : Nucleus.Same ⟨q, d⟩ n) :
    n.preempt.Keeps fun p => (given M c e p).or (f p) := by
  have hstate' : n.data.pcb_state = c.kernel.data.pcb_state := hsame.pcb_state.trans hstate
  have hcur' : n.data.currentProcess = c.kernel.data.currentProcess := hsame.current.trans hcur
  unfold Nucleus.preempt
  rcases hcase : n.data.currentProcess with - | - | x
  · exact .of_waits hlive hkeeps (fun p => (hsame.waits p).mp) fun _ _ => congrFun hstate' _
  · exact .of_waits hlive hkeeps (fun p => (hsame.waits p).mp) fun _ _ => congrFun hstate' _
  · refine .of_new (x := x) hlive hkeeps
      (fun p hp => (Queues.waits_makeReady.mp hp).imp id (hsame.waits p).mp)
      (fun p hp _ => ?_) (Or.inr ?_)
    · exact (Function.update_of_ne hp _ _).trans (congrFun hstate' p)
    · unfold given
      rw [if_pos (hcur'.symm.trans hcase), if_pos hex, ← hold, ← hsame.old]
      exact congrArg (some ∘ some) (Function.update_self x _ n.data.pcb_state).symm

theorem Interrupt.keeps {cause : Word} (hlive : c.Live M q)
    (hkeeps : Nucleus.Keeps f ⟨q, c.kernel.data⟩) (hex : e.exception = .INTERRUPT)
    (hact : Interrupt M q (e.enter c.kernel.data).stopClock cause n next) :
    n.Keeps fun p => (given M c e p).or (f p) := by
  have hold : (e.enter c.kernel.data).old .INTPOLDAREA = e.state := by
    simp [Entry.enter, hex, Exception.area]
  have hsettled : Nucleus.Settled M
      ⟨q, { (e.enter c.kernel.data).stopClock with intervalTimer := INTTIME }⟩ :=
    hlive.settled.congr rfl rfl
  cases hact with
  | panic _ => exact .of_waits hlive hkeeps (fun _ => id) fun _ _ => rfl
  | quantum _ =>
    exact .preempt hlive hkeeps hex (d := (e.enter c.kernel.data).stopClock) rfl rfl hold
      ⟨fun _ => Iff.rfl, rfl, rfl, rfl⟩
  | clock _ _ =>
    obtain ⟨hwaits, hstate, hcur, hold'⟩ := Nucleus.Same.wakeAll (a := clockSemaphore M) hsettled
    exact .preempt hlive hkeeps hex (d := (e.enter c.kernel.data).stopClock) rfl rfl hold
      ⟨hwaits, hstate, hcur, hold'⟩
  | @device line _ _ _ =>
    obtain ⟨hwaits, hstate, hcur, hold'⟩ := Nucleus.Same.signal (q := q)
      (d := (e.enter c.kernel.data).stopClock.acked line
        (deviceIndex (e.enter c.kernel.data).stopClock line))
      (a := deviceSemaphore M (e.enter c.kernel.data).stopClock line)
    exact .preempt hlive hkeeps hex (d := (e.enter c.kernel.data).stopClock) rfl rfl hold
      ⟨hwaits, hstate, hcur, hold'⟩

theorem Handles.keeps (hlive : c.Live M q) (hkeeps : Nucleus.Keeps f ⟨q, c.kernel.data⟩)
    (hact : Handles M q (e.enter c.kernel.data) e.exception n next) :
    n.Keeps fun p => (given M c e p).or (f p) := by
  rcases hact.cases_enter with ⟨number, hcalls, -, -, hact⟩ | ⟨type, -, hact⟩ | ⟨hex, hact⟩
  · exact hact.keeps hlive hkeeps hcalls
  · refine hact.keeps hlive hkeeps ?_
    unfold Entry.pass
    split <;> rfl
  · exact hact.keeps hlive hkeeps hex

/-- The scheduler takes a waiting process with the state it has been given. -/
theorem Nucleus.Keeps.finish (hkeeps : n.Keeps f) : (next.finish n).2.Keeps f := by
  cases next with
  | stop x => exact hkeeps
  | sched resume =>
    intro p hp
    simp only [Next.finish, Nucleus.schedule] at hp ⊢
    cases hready : n.queues.ready with
    | nil =>
      rw [hready] at hp
      simpa [Data.idle] using hkeeps p hp
    | cons x rest =>
      rw [hready] at hp
      have hp' : n.queues.Waits p := hp.imp (fun hp => List.mem_of_mem_erase hp) id
      simpa [Data.dispatch] using hkeeps p hp'

/-- A dispatched process was waiting, and its saved state is loaded. -/
theorem Config.Follows.dispatched
    (hfollows : c'.Follows M q (e.enter d) e.exception n next)
    (hdispatched : e.dispatched c' = some p) :
    n.queues.Waits p ∧ c'.stop = .LDST (.pcb_state (.to p)) (n.data.pcb_state p) := by
  obtain ⟨heq, hload⟩ := hfollows.dispatched_eq
  refine ⟨?_, hload p hdispatched⟩
  rw [heq] at hdispatched
  cases next with
  | stop x => exact absurd hdispatched nofun
  | sched resume => exact Or.inl (List.mem_of_head? hdispatched)

theorem trace_keeps (htrace : (nucleus M).Trace l c) :
    c.Dead ∨ ∃ q, c.Live M q ∧ Nucleus.Keeps (fun p => lastGiven M p l) ⟨q, c.kernel.data⟩ := by
  induction htrace with
  | init hinit =>
    obtain ⟨-, hrep, hbooted⟩ := nucleus_init hinit
    refine Or.inr ⟨_, ⟨hrep, hbooted.settled⟩, fun p hp => ?_⟩
    rcases hp with hp | hp
    · exact absurd hp List.not_mem_nil
    · exact absurd hp List.not_mem_nil
  | @step l c c' e htrace hstep ih =>
    rcases ih with hdead | ⟨q, hlive, hkeeps⟩
    · exact Or.inl (hdead.step hstep).1
    rcases step_spec hstep hlive.represents hlive.settled with
      ⟨n, next, hfollows⟩ | ⟨-, -, -, hstop, hderails⟩
    · refine Or.inr ⟨_, hfollows.live hlive.represents (hlive.settled.congr rfl rfl), ?_⟩
      rw [hfollows.data]
      exact (hfollows.handles.keeps hlive hkeeps).finish
    · exact Or.inl (.of_derails hstop hderails)

theorem lastGiven_ne (hwhole : ∀ t ∈ l, given M t.1 t.2 p ≠ some none) :
    lastGiven M p l ≠ some none := by
  induction l with
  | nil =>
    unfold lastGiven
    split <;> simp
  | cons t l ih =>
    have hrest := ih fun t' ht' => hwhole t' (List.mem_cons_of_mem _ ht')
    have hfirst := hwhole t List.mem_cons_self
    unfold lastGiven
    cases hgiven : given M t.1 t.2 p with
    | none => simpa [hgiven] using hrest
    | some st =>
      rw [hgiven] at hfirst
      simpa [hgiven] using hfirst

/-- A dispatched process continues with the state it has been given last, unless that
could not be read. -/
theorem dispatched_lastGiven (htrace : (nucleus M).Trace l c) (hstep : (nucleus M).step c e c')
    (hdispatched : e.dispatched c' = some p) (hwhole : lastGiven M p ((c, e) :: l) ≠ some none) :
    ∃ st, lastGiven M p ((c, e) :: l) = some (some st) ∧
      c'.stop = .LDST (.pcb_state (.to p)) st := by
  have hstopped : c'.stop ≠ .trap := by
    intro hstop
    rw [Entry.dispatched_eq_none (Or.inr (by simp [hstop, Stop.loadsPcb]))] at hdispatched
    exact absurd hdispatched (by simp)
  obtain ⟨q, hlive, hkeeps⟩ := (trace_keeps htrace).resolve_left fun hdead =>
    hstopped (hdead.step hstep).1.stop
  obtain ⟨n, next, hfollows⟩ := (step_spec hstep hlive.represents hlive.settled).resolve_right
    fun hderailed => hstopped hderailed.2.2.2.1
  obtain ⟨hwaits, hstop⟩ := hfollows.dispatched hdispatched
  refine ⟨_, ?_, hstop⟩
  exact ((hfollows.handles.keeps hlive hkeeps) p hwaits).resolve_left hwhole

/-- A process is dispatched with the state it has been given last, if SYS1 could
read the ones that it got for its pcb; `main` dispatches the first process with the
state it has made for it. -/
theorem dispatched_given :
    (∀ c, (nucleus M).init c → c.stop = .LDST (.pcb_state (.to firstPid)) (firstState M)) ∧
    ∀ {l c e c' p}, (nucleus M).Trace l c → (nucleus M).step c e c' → e.dispatched c' = some p →
      (∀ t ∈ (c, e) :: l, given M t.1 t.2 p ≠ some none) →
      ∃ st, lastGiven M p ((c, e) :: l) = some (some st) ∧
        c'.stop = .LDST (.pcb_state (.to p)) st := by
  refine ⟨fun c hinit => (nucleus_init hinit).1, ?_⟩
  intro l c e c' p htrace hstep hdispatched hwhole
  exact dispatched_lastGiven htrace hstep hdispatched (lastGiven_ne hwhole)

theorem given_ne (hsome : ((given M c e p).map Option.isSome != some false) = true) :
    given M c e p ≠ some none := by
  intro hnone
  rw [hnone] at hsome
  exact absurd hsome (by decide)

/-- The first process makes another one, which runs when its time slice ends. -/
theorem dispatched_given_small : ∃ st,
    lastGiven smallMachine 18
      [(smallBoot.calling 1 0x20001000 0 0, (smallBoot.calling 1 0x20001000 0 0).interrupt LINEONE 0
        fun _ => ⟨0, 0, 0, 0⟩), (smallBoot, smallBoot.call 1 0x20001000 0 0)] = some (some st) ∧
      (smallBoot.calling 1 0x20001000 0 0).slice.stop = .LDST (.pcb_state (.to 18)) st := by
  have hcreate : (nucleus smallMachine).Trace [(smallBoot, smallBoot.call 1 0x20001000 0 0)]
      (smallBoot.calling 1 0x20001000 0 0) :=
    .step (.init (boot_init smallMachine _ _))
      (step_calling 1 0x20001000 0 0 (by decide +kernel) (by decide) (by decide +kernel))
  refine dispatched_given.2 hcreate (step_slice (by decide +kernel) (by decide +kernel))
    (by decide +kernel) fun t ht => ?_
  rcases List.mem_cons.mp ht with rfl | ht
  · exact given_ne (by decide +kernel)
  · obtain rfl := List.mem_singleton.mp ht
    exact given_ne (by decide +kernel)

/-- A process with a handler for program traps. -/
def smallHandled : Config := smallBoot.calling 5 1 0x20004000 0x20005000

/-- SYS1 has trapped while it read the state of the new process. -/
def smallFault : Config := smallHandled.calling 1 0x20010000 0 0

def smallCaught : Config := smallFault.handle smallMachine 3 smallFault.programTrap

/-- A process whose SYS1 trapped is dispatched all the same, with a state that it
has not been given. -/
theorem not_always_dispatched_given :
    ¬ ∀ (M : Machine) (l : List (Config × Entry)) (c : Config) (e : Entry) (c' : Config) (p : Pid),
      (nucleus M).Trace l c → (nucleus M).step c e c' → e.dispatched c' = some p →
      ∃ st, lastGiven M p ((c, e) :: l) = some (some st) ∧
        c'.stop = .LDST (.pcb_state (.to p)) st := by
  intro hall
  have hfault : (nucleus smallMachine).Trace
      [(smallHandled, smallHandled.call 1 0x20010000 0 0),
        (smallBoot, smallBoot.call 5 1 0x20004000 0x20005000)] smallFault :=
    .step (.step (.init (boot_init smallMachine _ _))
      (step_call 5 1 0x20004000 0x20005000 (by decide +kernel) (by decide +kernel) (by decide +kernel)))
      (step_calling 1 0x20010000 0 0 (by decide +kernel) (by decide) (by decide +kernel))
  have hcaught : (nucleus smallMachine).Trace
      [(smallFault, smallFault.programTrap), (smallHandled, smallHandled.call 1 0x20010000 0 0),
        (smallBoot, smallBoot.call 5 1 0x20004000 0x20005000)] smallCaught :=
    .step hfault (handle_step (.trap (by decide +kernel)) (by decide +kernel))
  obtain ⟨st, hlast, -⟩ := hall smallMachine _ smallCaught _ smallCaught.slice 18 hcaught
    (step_slice (by decide +kernel) (by decide +kernel)) (by decide +kernel)
  have hnone : (lastGiven smallMachine 18
      [(smallCaught, smallCaught.interrupt LINEONE 0 fun _ => ⟨0, 0, 0, 0⟩),
        (smallFault, smallFault.programTrap), (smallHandled, smallHandled.call 1 0x20010000 0 0),
        (smallBoot, smallBoot.call 5 1 0x20004000 0x20005000)]).map Option.isSome = some false := by
    decide +kernel
  rw [hlast] at hnone
  exact absurd hnone (by simp)

end Kaya
