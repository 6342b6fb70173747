import Kaya.Phase2.Causes
import Kaya.Phase2.ClockInterrupt
import Kaya.Queues.Turns

open Links Exec

namespace Kaya

variable {M : Machine} {q q' : Queues} {d : Data} {c c' : Config} {e : Entry} {n : Nucleus}
  {next : Next} {p : Pid} {l : List (Entry × Config)}

/-- The process that the scheduler has dispatched in a step. SYS6 loads the state
of a pcb, too, but it is that of the caller. -/
def Entry.dispatched (e : Entry) (c' : Config) : Option Pid :=
  if e.calls GETTIME then none
  else
    match c'.stop with
    | .LDST (.pcb_state (.to p)) _ => some p
    | _ => none

/-- The dispatches in a piece of a run. -/
def dispatches (l : List (Entry × Config)) : List Pid := l.filterMap fun t => t.1.dispatched t.2

/-- The ready processes that come before `p`. -/
def Config.ahead (p : Pid) (c : Config) : List Pid := Turns.ahead p c.kernel.heap.readyList

/-- A handler's own work on the ready queue: processes that it frees leave, and
others are appended. -/
def Queues.Carries (q q' : Queues) : Prop :=
  ∃ new, q'.ready = q.ready.filter (· ∉ q'.free) ++ new

theorem Queues.Carries.of_append {new : List Pid} (hq : q.WF) (hfree : q'.free ⊆ q.free)
    (hready : q'.ready = q.ready ++ new) : q.Carries q' := by
  refine ⟨new, ?_⟩
  rw [hready, List.filter_eq_self.mpr]
  intro x hx
  simpa using fun hx' => hq.not_ready_of_free (hfree hx') hx

theorem Queues.Carries.refl (hq : q.WF) : q.Carries q :=
  .of_append hq (fun _ hx => hx) (List.append_nil _).symm

/-- Killing processes. -/
theorem Queues.Carries.erase {d : List Pid} (hq : q.WF) : q.Carries (q.erase d) := by
  refine ⟨[], ?_⟩
  rw [List.append_nil]
  refine List.filter_congr fun x hx => ?_
  have hx' : x ∉ q.free := fun hf => hq.not_ready_of_free hf hx
  simp [Queues.erase, hx']

theorem Service.carries {call : Int} (hq : q.WF) (hact : Service M q d call n next) :
    q.Carries n.queues := by
  cases hact with
  | create _ hfree _ => exact .of_append hq (List.tail_subset _) rfl
  | createFault _ hfree _ => exact .of_append hq (List.tail_subset _) rfl
  | terminate _ _ => exact .erase hq
  | sesvKill _ _ _ _ => exact .erase hq
  | signalWake _ _ _ _ => exact .of_append hq (fun _ hx => hx) rfl
  | waitBlock _ _ _ _ => exact .of_append hq (fun _ hx => hx) (List.append_nil _).symm
  | clockBlock _ _ _ => exact .of_append hq (fun _ hx => hx) (List.append_nil _).symm
  | ioBlock _ _ _ _ => exact .of_append hq (fun _ hx => hx) (List.append_nil _).symm
  | sesv _ _ _ => exact .of_append hq (fun _ hx => hx) (List.append_nil _).symm
  | _ => exact .refl hq

theorem PullUp.carries {type : TrapType} (hq : q.WF) (hact : PullUp M q d type n next) :
    q.Carries n.queues := by
  cases hact with
  | die _ _ _ _ => exact .erase hq
  | _ => exact .refl hq

theorem Nucleus.ready_preempt : ∃ new, n.preempt.queues.ready = n.queues.ready ++ new := by
  unfold Nucleus.preempt
  split
  · exact ⟨_, rfl⟩
  · exact ⟨[], (List.append_nil _).symm⟩

theorem Nucleus.ready_wakeAll {a : Word} :
    ∃ new, (Nucleus.wakeAll a n).queues.ready = n.queues.ready ++ new := by
  unfold Nucleus.wakeAll
  generalize n.queues.waiting a = l
  induction l generalizing n with
  | nil => exact ⟨[], (List.append_nil _).symm⟩
  | cons x l ih =>
    obtain ⟨new, hnew⟩ := ih (n := ⟨n.queues.wake x, n.data.wake x⟩)
    exact ⟨x :: new, hnew.trans (List.append_assoc _ _ _)⟩

theorem Nucleus.ready_signal {a : Word} :
    ∃ new, (Nucleus.signal a n).queues.ready = n.queues.ready ++ new := by
  unfold Nucleus.signal
  split
  · exact ⟨[], (List.append_nil _).symm⟩
  · dsimp only
    split
    · exact ⟨_, rfl⟩
    · exact ⟨[], (List.append_nil _).symm⟩

/-- The interrupted process is appended behind the others. -/
theorem Queues.Carries.preempt {new : List Pid} (hq : q.WF) (hfree : n.queues.free = q.free)
    (hready : n.queues.ready = q.ready ++ new) : q.Carries n.preempt.queues := by
  obtain ⟨hfree', -, -⟩ := Nucleus.family_preempt (n := n)
  obtain ⟨new', hnew'⟩ := Nucleus.ready_preempt (n := n)
  rw [hready, List.append_assoc] at hnew'
  exact .of_append hq (List.Perm.of_eq (hfree'.trans hfree)).subset hnew'

theorem Interrupt.carries {cause : Word} (hq : q.WF) (hact : Interrupt M q d cause n next) :
    q.Carries n.queues := by
  cases hact with
  | panic _ => exact .refl hq
  | quantum _ => exact .preempt hq rfl (List.append_nil _).symm
  | clock _ _ =>
    obtain ⟨hfree, -, -⟩ := Nucleus.family_wakeAll
      (n := ⟨q, { d with intervalTimer := INTTIME }⟩) (a := clockSemaphore M)
    obtain ⟨new, hnew⟩ := Nucleus.ready_wakeAll
      (n := ⟨q, { d with intervalTimer := INTTIME }⟩) (a := clockSemaphore M)
    exact .preempt hq hfree hnew
  | @device line _ _ _ =>
    obtain ⟨hfree, -, -⟩ := Nucleus.family_signal
      (n := ⟨q, d.acked line (deviceIndex d line)⟩) (a := deviceSemaphore M d line)
    obtain ⟨new, hnew⟩ := Nucleus.ready_signal
      (n := ⟨q, d.acked line (deviceIndex d line)⟩) (a := deviceSemaphore M d line)
    exact .preempt hq hfree hnew

theorem Handles.carries {ex : Exception} (hq : q.WF) (hact : Handles M q d ex n next) :
    q.Carries n.queues := by
  cases hact with
  | service _ _ hact => exact hact.carries hq
  | privileged _ _ hact => exact hact.carries hq
  | unknown _ hact => exact hact.carries hq
  | pgmTrap hact => exact hact.carries hq
  | tlbTrap hact => exact hact.carries hq
  | interrupt hact => exact hact.carries hq

/-- The way a stop of the nucleus tells that it has dispatched a process. -/
def Stop.loadsPcb : Stop → Prop
  | .LDST (.pcb_state _) _ => True
  | _ => False

/-- Only SYS6 loads the state of a pcb without the scheduler. -/
theorem Handles.loads (hact : Handles M q (e.enter d) e.exception n next) :
    match next with
    | .stop x => e.calls GETTIME ∨ ¬ x.loadsPcb
    | .sched resume => ¬ e.calls GETTIME ∧ ∀ d, ¬ (resume d).loadsPcb := by
  rcases hact.cases_enter with ⟨number, hcalls, -, -, hact⟩ | ⟨type, hraises, hact⟩ | ⟨hex, hact⟩
  · have hother : number ≠ 6 → ¬ e.calls GETTIME := fun hne hcalls' =>
      hne (hcalls.2.2.symm.trans hcalls'.2.2)
    cases hact with
    | getTime _ => exact Or.inl hcalls
    | terminate _ _ => exact ⟨hother (by decide), fun _ => id⟩
    | waitBlock _ _ _ _ => exact ⟨hother (by decide), fun _ => id⟩
    | sesvKill _ _ _ _ => exact ⟨hother (by decide), fun _ => id⟩
    | clock _ _ => exact ⟨hother (by decide), fun _ => id⟩
    | clockBlock _ _ _ => exact ⟨hother (by decide), fun _ => id⟩
    | ioBlock _ _ _ _ => exact ⟨hother (by decide), fun _ => id⟩
    | _ => exact Or.inr id
  · have hother : ¬ e.calls GETTIME := by
      rintro ⟨hex, hmode, hnumber⟩
      simp only [Entry.raises, hex] at hraises
      rw [hnumber, if_pos (by decide), if_pos hmode] at hraises
      exact absurd hraises (by simp)
    cases hact with
    | die _ _ _ _ => exact ⟨hother, fun _ => id⟩
    | _ => exact Or.inr id
  · have hother : ¬ e.calls GETTIME := fun hcalls => by simp [hcalls.1] at hex
    cases hact with
    | panic _ => exact Or.inr id
    | _ => exact ⟨hother, fun _ => id⟩

theorem Entry.dispatched_eq_none (hstop : e.calls GETTIME ∨ ¬ c'.stop.loadsPcb) :
    e.dispatched c' = none := by
  unfold Entry.dispatched
  split
  · rfl
  · rename_i hcalls
    have hloads := hstop.resolve_left hcalls
    split
    · rename_i heq
      rw [heq] at hloads
      exact absurd trivial hloads
    · rfl

theorem Entry.stop_of_dispatched {p : Pid} (hdispatched : e.dispatched c' = some p) :
    ∃ st, c'.stop = .LDST (.pcb_state (.to p)) st := by
  unfold Entry.dispatched at hdispatched
  split at hdispatched
  · exact absurd hdispatched nofun
  · split at hdispatched
    · rename_i st hstop
      obtain rfl := Option.some.inj hdispatched
      exact ⟨st, hstop⟩
    · exact absurd hdispatched nofun

/-- The scheduler dispatches the first ready process and loads its state. -/
theorem Config.Follows.dispatched_eq
    (hfollows : c'.Follows M q (e.enter d) e.exception n next) :
    e.dispatched c' = (match next with | .stop _ => none | .sched _ => n.queues.ready.head?) ∧
      ∀ p, e.dispatched c' = some p → c'.stop = .LDST (.pcb_state (.to p)) (n.data.pcb_state p) := by
  have hloads := hfollows.handles.loads
  have hstop := hfollows.stop
  cases next with
  | stop x =>
    rw [Entry.dispatched_eq_none (hstop ▸ hloads)]
    exact ⟨rfl, nofun⟩
  | sched resume =>
    obtain ⟨hcalls, hresume⟩ := hloads
    simp only [Next.finish, Nucleus.schedule] at hstop
    cases hready : n.queues.ready with
    | nil =>
      rw [hready] at hstop
      rw [Entry.dispatched_eq_none (Or.inr ?_)]
      · exact ⟨rfl, nofun⟩
      · rw [hstop]
        simp only [Data.verdict]
        split_ifs <;> first | exact id | exact hresume _
    | cons x rest =>
      rw [hready] at hstop
      have hdispatched : e.dispatched c' = some x := by
        unfold Entry.dispatched
        rw [if_neg hcalls, hstop]
        rfl
      refine ⟨hdispatched, fun p hp => ?_⟩
      obtain rfl : x = p := by simpa using hdispatched.symm.trans hp
      exact hstop

/-- The ready queue in a step of a live nucleus. -/
theorem Config.Follows.turn (hfollows : c'.Follows M q (e.enter d) e.exception n next)
    (hwf : n.queues.WF) (hq : q.WF) {h : Heap} (hrep : Represents h q) :
    ∃ kept new, Turns.Turn h.readyList kept new (e.dispatched c') c'.kernel.heap.readyList ∧
      ∀ x ∈ h.readyList, x ∉ kept → x ∈ c'.kernel.heap.freeList := by
  obtain ⟨new, hready⟩ := hfollows.handles.carries hq
  obtain ⟨hfree, -, -⟩ := @Nucleus.family_finish n next
  have hfreeList : c'.kernel.heap.freeList = n.queues.free := by
    rw [← hfree]
    exact hfollows.represents.freeList_eq (hfree ▸ hwf.free_nodup)
  have hqueue : n.queues.ready = (e.dispatched c').toList ++ (next.finish n).2.queues.ready := by
    rw [hfollows.dispatched_eq.1]
    cases next with
    | stop x => rfl
    | sched resume =>
      simp only [Next.finish, Nucleus.schedule]
      cases hhead : n.queues.ready with
      | nil => exact hhead.symm
      | cons x rest => simp [Queues.unready, hhead]
  refine ⟨q.ready.filter (· ∉ n.queues.free), new, ⟨?_, ?_, ?_, ?_⟩, ?_⟩
  · rw [hrep.readyList_eq]
    exact List.filter_sublist
  · intro x hx hx'
    rw [hrep.readyList_eq] at hx
    rw [hfollows.represents.readyList_eq] at hx'
    have hx'' : x ∈ n.queues.ready := by
      rw [hqueue]
      exact List.mem_append_right _ hx'
    have hlive : x ∉ n.queues.free := fun hf => hwf.not_ready_of_free hf hx''
    simpa [hx] using hlive
  · rw [← hready, hfollows.represents.readyList_eq]
    exact hqueue
  · rw [← hready]
    exact hwf.ready_nodup
  · intro x hx hkept
    rw [hrep.readyList_eq] at hx
    rw [hfreeList]
    by_contra hlive
    exact hkept (by simpa [hx] using hlive)

/-- A step that derails leaves the ready queue as it is. -/
theorem Derails.ready {call : Int} {k : Kernel} (hderails : Derails q d call k) :
    k.heap.readyList = q.ready := by
  cases hderails with
  | create _ _ _ hrep => exact hrep.readyList_eq
  | clock _ _ _ hrep _ _ => exact hrep.readyList_eq

theorem reachable_ready (hc : (nucleus M).Reachable c) :
    (∃ q, c.Live M q) ∨ (c.Dead ∧ c.kernel.heap.readyList.Nodup) := by
  refine hc.invariant (I := fun c => (∃ q, c.Live M q) ∨
    (c.Dead ∧ c.kernel.heap.readyList.Nodup)) (fun c hinit => ?_) fun c e c' hinv hstep => ?_
  · obtain ⟨-, hrep, hbooted⟩ := nucleus_init hinit
    exact Or.inl ⟨_, hrep, hbooted.settled⟩
  · rcases hinv with ⟨q, hrep, hn⟩ | ⟨hdead, hnodup⟩
    · rcases step_spec hstep hrep hn with ⟨n, next, hfollows⟩ | ⟨-, -, -, hstop, hderails⟩
      · exact Or.inl ⟨_, hfollows.live hrep (hn.congr rfl rfl)⟩
      · refine Or.inr ⟨.of_derails hstop hderails, ?_⟩
        rw [hderails.ready]
        exact hn.wf.ready_nodup
    · obtain ⟨hdead', hkernel⟩ := hdead.step hstep
      exact Or.inr ⟨hdead', hkernel ▸ hnodup⟩

theorem readyList_nodup (hc : (nucleus M).Reachable c) : c.kernel.heap.readyList.Nodup := by
  rcases reachable_ready hc with ⟨q, hrep, hn⟩ | ⟨-, hnodup⟩
  · rw [hrep.readyList_eq]
    exact hn.wf.ready_nodup
  · exact hnodup

/-- Every step is a turn of the ready queue; who leaves it without being
dispatched has been terminated. -/
theorem step_turn (hc : (nucleus M).Reachable c) (hstep : (nucleus M).step c e c') :
    ∃ kept new, Turns.Turn c.kernel.heap.readyList kept new (e.dispatched c')
        c'.kernel.heap.readyList ∧
      ∀ x ∈ c.kernel.heap.readyList, x ∉ kept → x ∈ c'.kernel.heap.freeList := by
  have hstays : c'.stop = .trap → c'.kernel.heap.readyList = c.kernel.heap.readyList →
      ∃ kept new, Turns.Turn c.kernel.heap.readyList kept new (e.dispatched c')
          c'.kernel.heap.readyList ∧
        ∀ x ∈ c.kernel.heap.readyList, x ∉ kept → x ∈ c'.kernel.heap.freeList := by
    intro hstop hready
    have hnone : e.dispatched c' = none :=
      Entry.dispatched_eq_none (Or.inr (by simp [hstop, Stop.loadsPcb]))
    rw [hnone, hready]
    exact ⟨_, [], ⟨List.Sublist.refl _, fun x hx _ => hx, List.append_nil _,
      by simpa using readyList_nodup hc⟩, fun x hx hkept => absurd hx hkept⟩
  rcases reachable_ready hc with ⟨q, hrep, hn⟩ | ⟨hdead, -⟩
  · rcases step_spec hstep hrep hn with ⟨n, next, hfollows⟩ | ⟨-, -, -, hstop, hderails⟩
    · have hn' : Nucleus.Settled M ⟨q, e.enter c.kernel.data⟩ := hn.congr rfl rfl
      have hsound := hfollows.handles.sound hrep hn'
      have hwf : n.queues.WF := by
        cases next with
        | stop _ => exact hsound.wf
        | sched _ => exact hsound.wf
      exact hfollows.turn hwf hn.wf hrep
    · exact hstays hstop (hderails.ready.trans hrep.readyList_eq.symm)
  · obtain ⟨hdead', hkernel⟩ := hdead.step hstep
    exact hstays hdead'.stop (by rw [hkernel])

/-- A piece of a run, as turns of the ready queue. -/
theorem path_turns (hc : (nucleus M).Reachable c) (hpath : (nucleus M).Path c l c') :
    Turns.Run c.kernel.heap.readyList
      (l.map fun t => (t.1.dispatched t.2, t.2.kernel.heap.readyList))
      c'.kernel.heap.readyList := by
  induction hpath with
  | nil => exact .nil
  | cons hstep _ ih =>
    obtain ⟨kept, new, hturn, -⟩ := step_turn hc hstep
    exact .cons hturn (ih (hc.step hstep))

/-- While a process waits in the ready queue, no other process is dispatched
twice; only those in front of it are dispatched, in their order, and it stays
until it is dispatched or terminated. -/
theorem dispatches_in_order (hc : (nucleus M).Reachable c) (hpath : (nucleus M).Path c l c')
    (hwaits : ∀ t ∈ l, p ∈ t.2.kernel.heap.readyList) :
    (dispatches l).Nodup ∧ p ∉ dispatches l ∧ (dispatches l).length ≤ MAXPROC - 1 ∧
    (p ∈ c.kernel.heap.readyList → (dispatches l ++ c'.ahead p).Sublist (c.ahead p)) ∧
    ∀ e c'', (nucleus M).step c' e c'' → p ∈ c'.kernel.heap.readyList →
      p ∈ c''.kernel.heap.readyList ∨ e.dispatched c'' = some p ∨
        p ∈ c''.kernel.heap.freeList := by
  have hrun := path_turns hc hpath
  have hdispatches : (l.map fun t => (t.1.dispatched t.2, t.2.kernel.heap.readyList)).filterMap
      Prod.fst = dispatches l := by
    simp [dispatches, List.filterMap_map]
  have hwaits' : ∀ t ∈ l.map fun t => (t.1.dispatched t.2, t.2.kernel.heap.readyList),
      p ∈ t.2 := by
    intro t ht
    obtain ⟨t', ht', rfl⟩ := List.mem_map.mp ht
    exact hwaits t' ht'
  obtain ⟨hnodup, hp⟩ := hrun.nodup_taken hwaits'
  rw [hdispatches] at hnodup hp
  refine ⟨hnodup, hp, ?_, fun hready => ?_, fun e c'' hstep hready => ?_⟩
  · have hlen := nodup_length_le (List.nodup_cons.mpr ⟨hp, hnodup⟩)
    rw [List.length_cons] at hlen
    exact Nat.le_sub_one_of_lt hlen
  · rw [← hdispatches]
    exact hrun.ahead_sublist (readyList_nodup hc) hready hwaits'
  · obtain ⟨kept, new, hturn, hgone⟩ := step_turn (hc.path hpath) hstep
    by_cases hkept : p ∈ kept
    · have hmem : p ∈ (e.dispatched c'').toList ++ c''.kernel.heap.readyList := by
        rw [← hturn.queue]
        exact List.mem_append_left _ hkept
      rcases List.mem_append.mp hmem with hp | hp
      · exact Or.inr (Or.inl (by simpa using hp))
      · exact Or.inl hp
    · exact Or.inr (Or.inr (hgone p hready hkept))

/-- The child 18 of the first process runs and has created 16, and all others are ready. -/
def smallWaits : Config := smallPlay
  [.call 1 0x20001000 0 0, .call 1 0x20001000 0 0, .slice, .call 1 0x20001000 0 0]

/-- A time slice ends, and the next process creates a child and terminates. -/
def smallTurns : List Cue := [.slice, .call 1 0x20001000 0 0, .call 2 0 0 0]

/-- The process 16 waits while the two in front of it are dispatched. -/
theorem dispatches_in_order_small :
    let l := smallScript.events smallWaits smallTurns
    let c' := smallScript.play smallWaits smallTurns
    dispatches l = [17, 19] ∧ smallWaits.ahead 16 = [17, 19] ∧
    (dispatches l).Nodup ∧ 16 ∉ dispatches l ∧ (dispatches l).length ≤ MAXPROC - 1 ∧
    (16 ∈ smallWaits.kernel.heap.readyList →
      (dispatches l ++ c'.ahead 16).Sublist (smallWaits.ahead 16)) ∧
    ∀ e c'', (nucleus smallMachine).step c' e c'' → 16 ∈ c'.kernel.heap.readyList →
      16 ∈ c''.kernel.heap.readyList ∨ e.dispatched c'' = some 16 ∨
        16 ∈ c''.kernel.heap.freeList := by
  intro l c'
  have hwaits : ∀ t ∈ l, (16 : Pid) ∈ t.2.kernel.heap.readyList := by decide +kernel
  exact ⟨by decide +kernel, by decide +kernel, dispatches_in_order
    (smallPlay_reachable (by decide +kernel)) (smallScript_follows.path (by decide +kernel)) hwaits⟩

/-- A child and its parent have put an address into their `pcb_semAdd` by a SYS5 for the row in
front of the table. The child 17 is ready, behind the first process, and 16 has terminated. -/
def smallMisfiled : Config := smallPlay [.call 1 0x20001000 0 0, .slice,
  .call 1 0x20001000 0 0, .call 1 0x20001000 0 0, .call 5 (-1) 0 0x20003000, .slice, .slice,
  .call 5 (-1) 0 0x20003000, .slice, .call 2 0 0 0]

/-- With any type of SYS5 a killed process may stay in the ready queue: here the terminated
process 16 is dispatched, and the first process is in no queue any more. -/
theorem not_always_in_order :
    ¬ ∀ (M : Machine) (c c' : Config) (l : List (Entry × Config)) (p : Pid),
      (unchecked M).Reachable c → (unchecked M).Path c l c' →
      (∀ t ∈ l, p ∈ t.2.kernel.heap.readyList) →
      (dispatches l).Nodup ∧ p ∉ dispatches l ∧ (dispatches l).length ≤ MAXPROC - 1 ∧
      (p ∈ c.kernel.heap.readyList → (dispatches l ++ c'.ahead p).Sublist (c.ahead p)) ∧
      ∀ e c'', (unchecked M).step c' e c'' → p ∈ c'.kernel.heap.readyList →
        p ∈ c''.kernel.heap.readyList ∨ e.dispatched c'' = some p ∨
          p ∈ c''.kernel.heap.freeList := by
  intro hall
  have hreach : (unchecked smallMachine).Reachable smallMisfiled :=
    anyScript_follows.reachable (Reachable.unchecked smallBoot_reachable) (by decide +kernel)
  have hstep := anyScript_follows smallMisfiled (.call 2 0 0 0) (by decide +kernel)
  obtain ⟨-, -, -, -, hstays⟩ :=
    hall smallMachine smallMisfiled smallMisfiled [] firstPid hreach .nil (by simp)
  have hready : firstPid ∈ smallMisfiled.kernel.heap.readyList := by decide +kernel
  revert hstays
  have hlost : ¬ (firstPid ∈ (Cue.next smallMisfiled (.call 2 0 0 0)).kernel.heap.readyList ∨
      ((Cue.call 2 0 0 0).entry smallMisfiled).dispatched
        (Cue.next smallMisfiled (.call 2 0 0 0)) = some firstPid ∨
      firstPid ∈ (Cue.next smallMisfiled (.call 2 0 0 0)).kernel.heap.freeList) := by
    decide +kernel
  exact fun hstays => hlost (hstays _ _ hstep hready)

end Kaya
