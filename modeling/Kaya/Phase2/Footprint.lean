import Kaya.Phase2.SemaphoreRuns
import Kaya.Phase2.Vectors

open Links Exec

namespace Kaya

/-- What the exceptions of a run let the nucleus write to: its own semaphores, those that
processes do Ps and Vs on, and the areas for old states. -/
inductive Touched (M : Machine) (l : List (Config × Entry)) (a : Word) : Prop where
  | device : M.onDevice a → Touched M l a
  | semaphore {t : Config × Entry} : t ∈ l → t.2.Uses a → Touched M l a
  | area {t : Config × Entry} {f : Field} : t ∈ l → t.2.calls SESV →
      f.addr (t.2.state.s_reg s_a2) = a → Touched M l a

variable {M : Machine} {q : Queues} {d : Data} {n : Nucleus} {next : Next} {c c' : Config}
  {e : Entry} {a : Word} {p : Pid} {type : TrapType} {l : List (Config × Entry)}

theorem Touched.cons {t : Config × Entry} (h : Touched M l a) : Touched M (t :: l) a := by
  cases h with
  | device hdevice => exact .device hdevice
  | semaphore hmem huses => exact .semaphore (List.mem_cons_of_mem _ hmem) huses
  | area hmem hcalls haddr => exact .area (List.mem_cons_of_mem _ hmem) hcalls haddr

/-- A SYS5 of the run has named the area for old states. -/
def Named (l : List (Config × Entry)) (old : Word) : Prop :=
  ∃ t ∈ l, t.2.calls SESV ∧ old = t.2.state.s_reg s_a2

theorem Named.touched {old : Word} (h : Named l old) (f : Field) : Touched M l (f.addr old) := by
  obtain ⟨t, hmem, hcalls, rfl⟩ := h
  exact .area hmem hcalls rfl

/-- Nobody waits where no P has been made, and no trap is passed up through areas that no
SYS5 has named. -/
structure Queues.Traced (M : Machine) (l : List (Config × Entry)) (q : Queues) : Prop where
  waiting : ∀ a, ¬ Touched M l a → q.waiting a = []
  areas : ∀ p ∉ q.free, ∀ type, q.states p type .NEW ≠ NULL → Named l (q.states p type .OLD)

/-- What a handler does to the areas for a trap. -/
inductive Retabled (q : Queues) (e : Entry) (p : Pid) (type : TrapType) (q' : Queues) : Prop where
  | same : q'.states p type = q.states p type → Retabled q e p type q'
  | cleared : q'.states p type .NEW = NULL → Retabled q e p type q'
  | named : e.calls SESV → q'.states p type .OLD = e.state.s_reg s_a2 → Retabled q e p type q'

/-- A new process has no areas. -/
theorem Queues.states_create {p b : Pid} (x : Pid) :
    (q.create p b).states x = if x = b then fun _ _ => NULL else q.states x := by
  by_cases hx : x = b <;> simp [Queues.create, Queues.makeReady, Queues.adopt, Queues.alloc, hx]

theorem Lineage.born {cur : PcbPtr} {q' : Queues} (h : Lineage q cur q') (hp : p ∉ q'.free)
    (hfree : p ∈ q.free) : q'.states p type .NEW = NULL := by
  cases h with
  | same hsame _ _ => exact absurd hfree (hsame ▸ hp)
  | @create r b rest _ hrest =>
    have hb : p = b := by
      by_contra hne
      apply hp
      rw [hrest] at hfree
      simpa [Queues.create, Queues.makeReady, Queues.adopt, Queues.alloc, hrest, hne] using hfree
    rw [Queues.states_create, if_pos hb]
  | erase _ _ => exact absurd (List.mem_append_right _ hfree) hp

theorem Service.retabled {number : Int} (hcalls : e.calls number)
    (hact : Service M q (e.enter d).advance number n next) : Retabled q e p type n.queues := by
  have hcreated : ∀ {r b : Pid}, Retabled q e p type (q.create r b) := by
    intro r b
    by_cases hp : p = b
    · exact .cleared (by rw [Queues.states_create, if_pos hp])
    · exact .same (by rw [Queues.states_create, if_neg hp])
  cases hact with
  | create _ _ _ => exact hcreated
  | createFault _ _ _ => exact hcreated
  | @sesv r t _ _ _ =>
    by_cases hp : p = r
    · subst hp
      by_cases ht : type = t
      · refine .named hcalls ?_
        simp [Queues.setStates, ht, Entry.advance_arg hcalls.1]
      · apply Retabled.same
        simp [Queues.setStates, ht]
    · apply Retabled.same
      simp [Queues.setStates, hp]
  | _ => exact .same rfl

theorem Handles.retabled (hact : Handles M q (e.enter d) e.exception n next) :
    Retabled q e p type n.queues := by
  rcases hact.cases_enter with ⟨number, hcalls, -, -, hact⟩ | ⟨type', -, hact⟩ | ⟨-, hact⟩
  · exact hact.retabled hcalls
  · cases hact <;> exact .same rfl
  · suffices hsame : n.queues.states = q.states by
      exact .same (by rw [hsame])
    cases hact with
    | panic _ => rfl
    | quantum _ => exact Nucleus.states_preempt
    | clock _ _ => exact Nucleus.states_preempt.trans Nucleus.states_wakeAll
    | device _ _ _ => exact Nucleus.states_preempt.trans Nucleus.states_signal

/-- One step of a run. -/
theorem Queues.Traced.step (h : q.Traced M l) (hn : Nucleus.Settled M ⟨q, e.enter c.kernel.data⟩)
    (hlegal : Legal M c e) (hact : Handles M q (e.enter c.kernel.data) e.exception n next) :
    n.queues.Traced M ((c, e) :: l) := by
  refine ⟨fun a ha => ?_, fun p hp type hnew => ?_⟩
  · have hdevice : ¬ M.onDevice a := fun hdevice => ha (.device hdevice)
    have huses : ¬ e.Uses a := fun huses => ha (.semaphore List.mem_cons_self huses)
    exact hact.nobody hn hlegal hdevice huses (h.waiting a fun hbefore => ha hbefore.cons)
  · have hold : Named l (q.states p type .OLD) → Named ((c, e) :: l) (q.states p type .OLD) := by
      rintro ⟨t, hmem, hcalls, heq⟩
      exact ⟨t, List.mem_cons_of_mem _ hmem, hcalls, heq⟩
    have hlive : p ∉ q.free := fun hfree => hnew (hact.lineage.born hp hfree)
    have htable : Retabled q e p type n.queues := hact.retabled
    cases htable with
    | same hsame =>
      rw [hsame] at hnew ⊢
      exact hold (h.areas p hlive type hnew)
    | cleared hnull => exact absurd hnull hnew
    | named hcalls heq => exact ⟨(c, e), List.mem_cons_self, hcalls, heq⟩

theorem Queues.Traced.finish (h : n.queues.Traced M l) : (next.finish n).2.queues.Traced M l := by
  have hwaiting : ∀ a, (next.finish n).2.queues.waiting a = n.queues.waiting a :=
    fun a => congrArg Semaphore.waiting Nucleus.semaphore_finish
  refine ⟨fun a ha => (hwaiting a).trans (h.waiting a ha), ?_⟩
  rw [Nucleus.states_finish,
    show (next.finish n).2.queues.free = n.queues.free from Nucleus.family_finish.1]
  exact h.areas

theorem traced_of_trace (htrace : (nucleus M).Trace l c) :
    (∃ q, c.Live M q ∧ q.Traced M l) ∨ c.Dead := by
  induction htrace with
  | init hinit =>
    obtain ⟨-, hrep, hbooted⟩ := nucleus_init hinit
    have hall : ∀ p, p = firstPid ∨ p ∈ Queues.booted.free := by decide
    refine .inl ⟨_, ⟨hrep, hbooted.settled⟩, fun a _ => rfl, fun p hp type hnew => ?_⟩
    obtain rfl := (hall p).resolve_right hp
    exact absurd rfl hnew
  | @step l c c' e htrace hstep ih =>
    rcases ih with ⟨q, hlive, htraced⟩ | hdead
    · have hn : Nucleus.Settled M ⟨q, e.enter c.kernel.data⟩ := hlive.settled.congr rfl rfl
      rcases step_spec hstep hlive.represents hlive.settled with
        ⟨n, next, hfollows⟩ | ⟨-, -, -, hstop, hderails⟩
      · have hafter := htraced.step hn hstep.1 hfollows.handles
        exact .inl ⟨_, hfollows.live hlive.represents hn, hafter.finish⟩
      · exact .inr (.of_derails hstop hderails)
    · exact .inr (hdead.step hstep).1

/-- The handlers leave memory alone that nothing in the run leads to. -/
theorem Handles.untouched (hact : Handles M q (e.enter c.kernel.data) e.exception n next)
    (hn : Nucleus.Settled M ⟨q, e.enter c.kernel.data⟩) (hlegal : Legal M c e) (htraced : q.Traced M l)
    (ha : ¬ Touched M ((c, e) :: l) a) : n.data.mem a = e.mem a := by
  have hbefore : ¬ Touched M l a := fun hbefore => ha hbefore.cons
  have hdevice : ¬ M.onDevice a := fun hdevice => ha (.device hdevice)
  have huses : ¬ e.Uses a := fun huses => ha (.semaphore List.mem_cons_self huses)
  have hkilled : ∀ {d : Data} {s : Semaphore}, d.mem = e.mem → Nucleus.Terminated M q d a s →
      s.value = e.mem a := by
    -- nobody is killed who waits there
    rintro d s hmem ⟨p, l, -, -, rfl⟩
    have hnobody := htraced.waiting a hbefore
    split <;> simp [Semaphore.kill, Nucleus.semaphore, hnobody, hmem]
  have hvalue : ∀ {d : Data}, d.mem = e.mem →
      n.semaphore a = Nucleus.semaphore a ⟨q, d⟩ → n.data.mem a = e.mem a := by
    intro d hmem hsame
    exact (congrArg Semaphore.value hsame).trans (congrFun hmem a)
  rcases hact.cases_enter with ⟨number, hcalls, -, -, hact⟩ | ⟨type, hraises, hact⟩ | ⟨hex, hact⟩
  · have hn' : Nucleus.Settled M ⟨q, (e.enter c.kernel.data).advance⟩ := hn.congr rfl rfl
    rcases hact.semaphore_other hn' (hlegal.semaphoreOf_ne hcalls hdevice huses) with hsame | ⟨-, hkill⟩
    · exact hvalue rfl hsame
    · exact hkilled rfl hkill
  · obtain ⟨hcur, hcount, hmem⟩ := Entry.pass_congr (e := e) (d := c.kernel.data)
    have hn' : Nucleus.Settled M ⟨q, e.pass c.kernel.data⟩ := hn.congr hcur hcount
    have hapart : ∀ p, (e.pass c.kernel.data).currentProcess = .to p → q.states p type .NEW ≠ NULL →
        ∀ f : Field, f.addr (q.states p type .OLD) ≠ a := by
      intro p hp hnew f haddr
      have hlive : p ∉ q.free := fun hfree => hn'.unplaced p hp (Queues.mem_placed.mpr (.inl hfree))
      exact hbefore (haddr ▸ (htraced.areas p hlive type hnew).touched f)
    cases hact with
    | die hp _ _ hl => exact hkilled hmem ⟨_, _, hp, hl, Nucleus.semaphore_killed hn' hp hl⟩
    | copyFault hp _ hnew _ hkept => exact (hkept a (hapart _ hp hnew)).trans (congrFun hmem a)
    | loadFault hp hnew _ _ =>
      exact (storeState_of_ne (hapart _ hp hnew)).trans (congrFun hmem a)
    | passUp hp hnew _ _ =>
      exact (storeState_of_ne (hapart _ hp hnew)).trans (congrFun hmem a)
    | _ => exact congrFun hmem a
  · have hn' : Nucleus.Settled M ⟨q, (e.enter c.kernel.data).stopClock⟩ := hn.congr rfl rfl
    exact hvalue rfl (hact.semaphore_other hn' hdevice)

/-- A process names its areas for program traps, is blocked and woken, and traps. -/
def footprintCues : List Cue := [.call 1 0x20001000 0 0, .slice, .call 5 1 0x20004000 0x20005000,
  .call 4 0x20003000 0 0, .call 3 0x20003000 0 0, .slice]

end Kaya
