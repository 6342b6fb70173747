import Kaya.Phase2.Subtree

open Links Exec

namespace Kaya

/-- The state of a trap as it is passed up: a service called in user mode
becomes a reserved instruction. -/
def Entry.trapped (e : Entry) : State :=
  if e.exception = .SYSCALL then
    if e.privileged then e.state.set .s_cause (RI <<< 2) else e.state
  else e.state

/-- The handler copies the trapped state to the process's old area and loads its
new state; nothing else changes. -/
def PassesUp (M : Machine) (h : Heap) (d : Data) (e : Entry) (p : Pid) (type : TrapType) : Prop :=
  ∀ n, (handler M n e.exception).run ⟨h, e.enter d⟩ =
    .error (.LDST (.mem (h.pcb_states p type .NEW))
        (stateAt (storeState e.mem (h.pcb_states p type .OLD) e.trapped)
          (h.pcb_states p type .NEW)))
      ⟨h, { e.pass d with mem := storeState e.mem (h.pcb_states p type .OLD) e.trapped }⟩

/-- The handler kills the process and its descendants and calls the scheduler. -/
def DiesOf (M : Machine) (h : Heap) (d : Data) (e : Entry) (p : Pid) : Prop :=
  ∃ need l k, Kernel.Killed p l ⟨h, e.pass d⟩ k ∧
    ∀ n ≥ need, (executeOrderSixtySix M n (.to p)).run ⟨h, e.pass d⟩ = .ok () k ∧
      (handler M n e.exception).run ⟨h, e.enter d⟩ =
        (scheduler M >>= fun _ => throw .trap).run k

/-- A trap is passed up if the process has a handler for it and kills the process
otherwise. In particular no null pointer is dereferenced: the nucleus would trap. -/
structure TrapHandled (M : Machine) (h : Heap) (d : Data) (e : Entry) (p : Pid) (type : TrapType) :
    Prop where
  installed : h.pcb_states p type .NEW ≠ NULL → PassesUp M h d e p type
  missing : h.pcb_states p type .NEW = NULL → DiesOf M h d e p

variable {M : Machine} {h : Heap} {q : Queues} {d : Data} {c : Config} {e : Entry} {p : Pid}
  {type : TrapType} {n : Nat}

/-- A trap leads to `pullUpAndDie`, whatever would come after it. -/
theorem run_handler_raises (hraises : e.raises = some type) : ∃ f : Unit → KernelM Unit,
    (handler M n e.exception).run ⟨h, e.enter d⟩ =
      (pullUpAndDie M n type >>= f).run ⟨h, e.pass d⟩ := by
  cases hex : e.exception with
  | SYSCALL =>
    have hvalid : validCall (e.enter d) ↔ CREATE_PROCESS ≤ (e.state.s_reg s_a0).toInt ∧
        (e.state.s_reg s_a0).toInt ≤ WAITIO := by
      unfold validCall callNumber Data.arg
      rw [Entry.enter_syscall hex]
    have huser : userMode (e.enter d) ↔ e.state.s_status &&& KUON ≠ ALLOFF := by
      unfold userMode
      rw [Entry.enter_syscall hex]
    simp only [Entry.raises, hex] at hraises
    by_cases hcall : validCall (e.enter d)
    · rw [if_pos (hvalid.mp hcall)] at hraises
      by_cases hmode : userMode (e.enter d)
      · rw [if_neg (huser.mp hmode), Option.some.injEq] at hraises
        subst hraises
        rw [Entry.pass, if_pos ⟨hex, (hvalid.mp hcall).1, (hvalid.mp hcall).2, huser.mp hmode⟩]
        exact ⟨_, run_sysCallHandler_privileged hcall hmode⟩
      · rw [if_pos (by simpa using fun hne => hmode (huser.mpr hne))] at hraises
        exact absurd hraises (by simp)
    · rw [if_neg fun hle => hcall (hvalid.mpr hle), Option.some.injEq] at hraises
      subst hraises
      rw [Entry.pass, if_neg fun hle => hcall (hvalid.mpr ⟨hle.2.1, hle.2.2.1⟩)]
      exact ⟨_, run_sysCallHandler_unknown hcall⟩
  | PGMTRAP =>
    obtain rfl : TrapType.PROGTRAP = type := by simpa [Entry.raises, hex] using hraises
    rw [Entry.pass, if_neg (by simp [hex])]
    exact ⟨pure, by simp [handler, pbgTrapHandler]⟩
  | TLBTRAP =>
    obtain rfl : TrapType.TLBTRAP = type := by simpa [Entry.raises, hex] using hraises
    rw [Entry.pass, if_neg (by simp [hex])]
    exact ⟨pure, by simp [handler, tlbTrapHandler]⟩
  | INTERRUPT => simp [Entry.raises, hex] at hraises

/-- The old area that a trap is passed up from. -/
theorem Entry.pass_old (hraises : e.raises = some type) :
    (e.pass d).old type.location = e.trapped := by
  unfold Entry.pass Entry.trapped
  cases hex : e.exception with
  | SYSCALL =>
    have hstate : (e.enter d).old .SYSCALLOLDAREA = e.state := Entry.enter_syscall hex
    simp only [Entry.raises, hex] at hraises
    by_cases hpriv : e.privileged
    · rw [if_pos ⟨hpriv.1, hpriv.2.1⟩, if_neg hpriv.2.2, Option.some.injEq] at hraises
      subst hraises
      simp [hpriv, Data.reserved, TrapType.location, hstate]
    · have hcall : ¬ (CREATE_PROCESS ≤ (e.state.s_reg s_a0).toInt ∧
          (e.state.s_reg s_a0).toInt ≤ WAITIO) := by
        intro hcall
        rw [if_pos hcall] at hraises
        split at hraises
        · exact absurd hraises (by simp)
        · exact hpriv ⟨hcall.1, hcall.2, ‹_›⟩
      rw [if_neg hcall, Option.some.injEq] at hraises
      subst hraises
      simp [hpriv, TrapType.location, hstate]
  | PGMTRAP =>
    obtain rfl : TrapType.PROGTRAP = type := by simpa [Entry.raises, hex] using hraises
    simp [Entry.enter, hex, Exception.area, TrapType.location]
  | TLBTRAP =>
    obtain rfl : TrapType.TLBTRAP = type := by simpa [Entry.raises, hex] using hraises
    simp [Entry.enter, hex, Exception.area, TrapType.location]
  | INTERRUPT => simp [Entry.raises, hex] at hraises

theorem Entry.pass_congr : (e.pass d).currentProcess = d.currentProcess ∧
    (e.pass d).processCount = d.processCount ∧ (e.pass d).mem = e.mem := by
  unfold Entry.pass
  split <;> exact ⟨rfl, rfl, rfl⟩

/-- What comes after the scheduler matters only when it returns. -/
theorem run_scheduler_congr {f g : Unit → KernelM Unit} (hrep : Represents h q) (hq : q.WF)
    (hcur : d.currentProcess ≠ .zero)
    (hfg : ∀ h' d', d'.currentProcess = .null → (f ()).run ⟨h', d'⟩ = (g ()).run ⟨h', d'⟩) :
    (scheduler M >>= f).run ⟨h, d⟩ = (scheduler M >>= g).run ⟨h, d⟩ := by
  obtain ⟨h', hrun, -⟩ := scheduler_spec (M := M) hrep hq hcur
  rcases hsched : (Nucleus.schedule ⟨q, d⟩).1 with - | x
  · rw [hsched] at hrun
    rw [Exec.run_bind_ok hrun, Exec.run_bind_ok hrun, hfg _ _ (Nucleus.schedule_none hsched)]
  · rw [hsched] at hrun
    rw [Exec.run_bind_error hrun, Exec.run_bind_error hrun]

/-- A trap of a process with a handler that can be used. -/
theorem run_handler_passUp (hrep : Represents h q) (hcur : d.currentProcess = .to p)
    (hraises : e.raises = some type) (hnew : q.states p type .NEW ≠ NULL)
    (hw : M.writableState (q.states p type .OLD) = true)
    (hr : M.readableState (q.states p type .NEW) = true) :
    (handler M n e.exception).run ⟨h, e.enter d⟩ =
      .error (.LDST (.mem (q.states p type .NEW))
          (stateAt (storeState e.mem (q.states p type .OLD) e.trapped) (q.states p type .NEW)))
        ⟨h, { e.pass d with mem := storeState e.mem (q.states p type .OLD) e.trapped }⟩ := by
  obtain ⟨f, hf⟩ := run_handler_raises (M := M) (d := d) (h := h) (n := n) hraises
  obtain ⟨hcur', -, hmem⟩ := Entry.pass_congr (e := e) (d := d)
  rw [hf]
  refine Exec.run_bind_error ?_
  rw [run_pullUpAndDie_passUp hrep (hcur'.trans hcur) hnew hw,
    run_data_error (run_putALoadInMeDaddy_mem hr)]
  simp only [Data.passUp, Entry.pass_old hraises, hmem]

/-- The same holds when the current process has been killed first. -/
theorem run_kill_congr {f g : Unit → KernelM Unit} (hrep : Represents h q)
    (hn : Nucleus.Settled M ⟨q, d⟩) (hcur : d.currentProcess = .to p)
    (hfg : ∀ h' d', d'.currentProcess = .null → (f ()).run ⟨h', d'⟩ = (g ()).run ⟨h', d'⟩) :
    (executeOrderSixtySix M n (.to p) >>= fun _ => scheduler M >>= f).run ⟨h, d⟩ =
      (executeOrderSixtySix M n (.to p) >>= fun _ => scheduler M >>= g).run ⟨h, d⟩ := by
  have hp : p ∉ q.free := fun hf => hn.unplaced p hcur (Queues.mem_placed.mpr (Or.inl hf))
  obtain ⟨l, hl⟩ := hn.wf.acyclic.exists_postorder p
  obtain ⟨need, hkill⟩ := executeOrderSixtySix_spec (M := M) hl
  obtain ⟨hspin, h', hdone, hrep', hq'⟩ := hkill (d := d) hrep hn.wf hp (Or.inl hcur) hn.keys
  by_cases hneed : n < need
  · obtain ⟨k, hk⟩ := hspin n hneed
    rw [Exec.run_bind_error hk, Exec.run_bind_error hk]
  · rw [Exec.run_bind_ok (hdone n (by omega)), Exec.run_bind_ok (hdone n (by omega))]
    exact run_scheduler_congr hrep' hq' (by simp [Data.killed, hcur]) hfg

/-- A trap of a process without a handler. -/
theorem run_handler_die (hrep : Represents h q) (hn : Nucleus.Settled M ⟨q, d⟩)
    (hcur : d.currentProcess = .to p) (hraises : e.raises = some type)
    (hnew : q.states p type .NEW = NULL)
    (hold : M.readable (Field.s_cause.addr (q.states p type .OLD)) = true) :
    (handler M n e.exception).run ⟨h, e.enter d⟩ =
      (executeOrderSixtySix M n (.to p) >>= fun _ => scheduler M >>= fun _ => throw .trap).run
        ⟨h, e.pass d⟩ := by
  obtain ⟨f, hf⟩ := run_handler_raises (M := M) (d := d) (h := h) (n := n) hraises
  obtain ⟨hcur', hcount, -⟩ := Entry.pass_congr (e := e) (d := d)
  replace hcur' := hcur'.trans hcur
  have hn' : Nucleus.Settled M ⟨q, e.pass d⟩ := hn.congr (hcur'.trans hcur.symm) hcount
  have hdie := run_pullUpAndDie_die (n := n) hrep hcur' hold hnew
  unfold sysSendToNorthKorea at hdie
  simp only [bind_assoc] at hdie
  rw [bind_get, show (Kernel.data ⟨h, e.pass d⟩).currentProcess = .to p from hcur'] at hdie
  rw [hf, Exec.run_bind_congr hdie]
  simp only [bind_assoc]
  refine run_kill_congr hrep hn' hcur' fun h'' d'' hnull => ?_
  rw [bind_get]
  simp only [hnull]
  exact Exec.run_bind_error run_trapArea_null

/-- The pointers of a process to its handler for a trap can be used; the old
area is looked at also when there is no handler. No word can be read through
`NULL`, which is not a multiple of four. -/
structure HandlerUsable (M : Machine) (h : Heap) (p : Pid) (type : TrapType) : Prop where
  old : h.pcb_states p type .NEW ≠ NULL → M.writableState (h.pcb_states p type .OLD) = true
  new : h.pcb_states p type .NEW ≠ NULL →
    M.readableState (h.pcb_states p type .NEW) = true
  cause : h.pcb_states p type .NEW = NULL →
    M.readable (Field.s_cause.addr (h.pcb_states p type .OLD)) = true

/-- A handler with pointers that cannot be used makes the nucleus trap. -/
theorem run_handler_fault (hrep : Represents h q) (hcur : d.currentProcess = .to p)
    (hraises : e.raises = some type) (hnew : q.states p type .NEW ≠ NULL)
    (hbad : M.writableState (q.states p type .OLD) = false ∨
      M.readableState (q.states p type .NEW) = false) :
    ∃ k, (handler M n e.exception).run ⟨h, e.enter d⟩ = .error .trap k := by
  obtain ⟨f, hf⟩ := run_handler_raises (M := M) (d := d) (h := h) (n := n) hraises
  have hcur' := (Entry.pass_congr (e := e) (d := d)).1.trans hcur
  rw [hf]
  suffices hpull : ∃ k, (pullUpAndDie M n type).run ⟨h, e.pass d⟩ = .error .trap k by
    obtain ⟨k, hk⟩ := hpull
    exact ⟨k, Exec.run_bind_error hk⟩
  cases hold : M.readable (Field.s_cause.addr (q.states p type .OLD)) with
  | false => exact ⟨_, run_pullUpAndDie_oldFault hrep hcur' hold⟩
  | true =>
    cases hw : M.writableState (q.states p type .OLD) with
    | false =>
      obtain ⟨mem, hrun, -⟩ := run_copyState_old_mem_trap (e.pass d) type.location hw
      rw [run_pullUpAndDie_copy hrep hcur' hold hnew, bind_data_error hrun]
      exact ⟨_, rfl⟩
    | true =>
      have hr := hbad.resolve_left (by simp [hw])
      rw [run_pullUpAndDie_passUp hrep hcur' hnew hw,
        run_data_error (run_putALoadInMeDaddy_mem_trap hr)]
      exact ⟨_, rfl⟩

theorem TrapHandled.usable (hrep : Represents h q) (hn : Nucleus.Settled M ⟨q, d⟩)
    (hcur : d.currentProcess = .to p) (hraises : e.raises = some type)
    (htrap : TrapHandled M h d e p type) : HandlerUsable M h p type := by
  obtain ⟨hinstalled, hmissing⟩ := htrap
  unfold PassesUp at hinstalled
  simp only [hrep.states] at hinstalled hmissing
  constructor
  · intro hnew
    rw [hrep.states] at hnew ⊢
    by_contra hw
    obtain ⟨k, hk⟩ := run_handler_fault (M := M) (n := 0) hrep hcur hraises hnew
      (Or.inl (by simpa using hw))
    exact absurd (hk.symm.trans (hinstalled hnew 0)) nofun
  · intro hnew
    rw [hrep.states] at hnew ⊢
    by_contra hr
    obtain ⟨k, hk⟩ := run_handler_fault (M := M) (n := 0) hrep hcur hraises hnew
      (Or.inr (by simpa using hr))
    exact absurd (hk.symm.trans (hinstalled hnew 0)) nofun
  · intro hnew
    rw [hrep.states] at hnew ⊢
    by_contra hold
    obtain ⟨hcur', hcount, -⟩ := Entry.pass_congr (e := e) (d := d)
    replace hcur' := hcur'.trans hcur
    have hp : p ∉ q.free := fun hf => hn.unplaced p hcur (Queues.mem_placed.mpr (Or.inl hf))
    obtain ⟨l, hl⟩ := hn.wf.acyclic.exists_postorder p
    obtain ⟨need, hkill⟩ := executeOrderSixtySix_spec (M := M) hl
    obtain ⟨-, h', hdone, hrep', hq'⟩ := hkill (d := e.pass d) hrep hn.wf hp (Or.inl hcur') hn.keys
    obtain ⟨need', -, k, -, hdies⟩ := hmissing hnew
    obtain ⟨hk, hsched⟩ := hdies (max need need') (le_max_right _ _)
    obtain ⟨-, rfl⟩ := EStateM.Result.ok.injEq _ _ _ _ ▸ hk.symm.trans (hdone _ (le_max_left _ _))
    -- the trap happens before anybody is killed
    obtain ⟨f, hf⟩ := run_handler_raises (M := M) (d := d) (h := h) (n := max need need')
      hraises
    have htrap : (handler M (max need need') e.exception).run ⟨h, e.enter d⟩ =
        .error .trap ⟨h, e.pass d⟩ := by
      rw [hf]
      exact Exec.run_bind_error (run_pullUpAndDie_oldFault hrep hcur' (by simpa using hold))
    obtain ⟨h'', hends, -⟩ : Ends ((scheduler M >>= fun _ => throw .trap).run
        ⟨h', (e.pass d).killed M q l⟩) ⟨q.erase l, (e.pass d).killed M q l⟩
        (.sched fun _ => .trap) :=
      ends_scheduler hrep' hq' (by simp [Data.killed, hcur']) fun _ _ _ => rfl
    rw [hsched, hends] at htrap
    have hsame := congrArg (fun k => k.data.processCount)
      (EStateM.Result.error.injEq _ _ _ _ ▸ htrap).2
    have hpos : l.length ≠ 0 := by
      intro hlen
      have hmem := (hl.mem_iff hn.wf.acyclic p).mpr .refl
      rw [List.length_eq_zero_iff.mp hlen] at hmem
      exact absurd hmem (by simp)
    have hkilled : (Nucleus.schedule ⟨q.erase l, (e.pass d).killed M q l⟩).2.data.processCount =
        (e.pass d).processCount - l.length := by
      unfold Nucleus.schedule
      split <;> simp [Data.dispatch, Data.idle, Data.killed]
    simp only [Next.finish] at hsame
    rw [hkilled] at hsame
    omega

/-- A trap is handled exactly when the process's pointers for it can be used. -/
theorem trapHandled_iff (hc : (nucleus M).Reachable c) (hraises : e.raises = some type)
    (hcur : c.kernel.data.currentProcess = .to p) :
    TrapHandled M c.kernel.heap c.kernel.data e p type ↔ HandlerUsable M c.kernel.heap p type := by
  obtain ⟨q, ⟨hrep, hn⟩, hrooted⟩ : ∃ q, c.Live M q ∧ q.Rooted := by
    refine (reachable_rooted hc).resolve_right fun hdead => ?_
    rw [hdead.current] at hcur
    exact absurd hcur (by simp)
  refine ⟨fun htrap => htrap.usable hrep hn hcur hraises, fun husable => ?_⟩
  obtain ⟨hold, hnew, hcause⟩ := husable
  refine ⟨fun hinstalled n => ?_, fun hmissing => ?_⟩
  · have hw := hold hinstalled
    have hr := hnew hinstalled
    rw [hrep.states] at hinstalled hw hr ⊢
    exact run_handler_passUp hrep hcur hraises hinstalled hw hr
  · have hc := hcause hmissing
    rw [hrep.states] at hmissing hc
    obtain ⟨need, l, k, hdone, hkilled⟩ := executeOrderSixtySix_killed hrep hn hrooted hcur
      (Entry.pass_congr.1.trans hcur)
    refine ⟨need, l, k, hkilled, fun n hneed => ⟨hdone n hneed, ?_⟩⟩
    rw [run_handler_die hrep hn hcur hraises hmissing hc, Exec.run_bind_ok (hdone n hneed)]

/-- A child has a handler for program traps. The first process is ready. -/
def smallCatcher : Config :=
  smallPlay [.call 1 0x20001000 0 0, .slice, .call 5 1 0x20004000 0x20005000]

/-- The program trap of the child is passed up. -/
theorem trapHandled_iff_small :
    smallCatcher.kernel.heap.pcb_states 18 .PROGTRAP .NEW = 0x20005000 ∧
    TrapHandled smallMachine smallCatcher.kernel.heap smallCatcher.kernel.data
      smallCatcher.programTrap 18 .PROGTRAP := by
  have hcatcher : (nucleus smallMachine).Reachable smallCatcher :=
    smallPlay_reachable (by decide +kernel)
  have husable : HandlerUsable smallMachine smallCatcher.kernel.heap 18 .PROGTRAP :=
    ⟨by decide +kernel, by decide +kernel, by decide +kernel⟩
  exact ⟨by decide +kernel,
    (trapHandled_iff hcatcher (e := smallCatcher.programTrap) rfl (by decide +kernel)).mpr husable⟩

/-- The first process has no handler when it runs into a program trap; its null
old area is looked at, and nothing is installed there. -/
theorem not_always_trapHandled :
    ¬ ∀ (M : Machine) (c : Config) (e : Entry) (p : Pid) (type : TrapType),
      (nucleus M).Reachable c → e.raises = some type → c.kernel.data.currentProcess = .to p →
      TrapHandled M c.kernel.heap c.kernel.data e p type := by
  intro hall
  have hcur : smallBoot.kernel.data.currentProcess = .to firstPid := by decide +kernel
  have hnew : smallBoot.kernel.heap.pcb_states firstPid .PROGTRAP .NEW = NULL := by decide +kernel
  have hold : smallMachine.readable
      (Field.s_cause.addr (smallBoot.kernel.heap.pcb_states firstPid .PROGTRAP .OLD)) = false := by
    decide +kernel
  obtain ⟨q, hrep, hn⟩ := (reachable_live smallBoot_reachable).resolve_right fun hdead => by
    rw [hdead.current] at hcur
    exact absurd hcur nofun
  have husable := (hall smallMachine smallBoot smallBoot.programTrap firstPid .PROGTRAP
    smallBoot_reachable rfl hcur).usable hrep hn hcur rfl
  have hcause := husable.cause hnew
  rw [hold] at hcause
  exact absurd hcause nofun

end Kaya
