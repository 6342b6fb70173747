import Kaya.Phase2.Traps

open Links Exec

namespace Kaya

/-- SYS1 takes the pcb `p` from the free list. -/
def Allocates (c : Config) (e : Entry) (p : Pid) : Prop :=
  e.calls CREATE_PROCESS ∧ c.kernel.heap.freeList.head? = some p

instance (c : Config) (e : Entry) (p : Pid) : Decidable (Allocates c e p) :=
  inferInstanceAs (Decidable (_ ∧ _))

/-- A SYS5 of `p` for a trap. -/
def Specifies (c : Config) (e : Entry) (p : Pid) (type : TrapType) : Prop :=
  e.calls SESV ∧ c.kernel.data.currentProcess = .to p ∧
    TrapType.ofWord (e.state.s_reg s_a1) = some type

instance (c : Config) (e : Entry) (p : Pid) (type : TrapType) : Decidable (Specifies c e p type) :=
  inferInstanceAs (Decidable (_ ∧ _ ∧ _))

/-- The areas of `p` for a trap after an exception, from those before: a pcb that is
taken has none, and a SYS5 counts only when it is the first. -/
def vectorStep (c : Config) (e : Entry) (p : Pid) (type : TrapType) (v : Option (Word × Word)) :
    Option (Word × Word) :=
  if Allocates c e p then none
  else v.or (if Specifies c e p type then some (e.state.s_reg s_a2, e.state.s_reg s_a3) else none)

/-- The old and the new area that `p` has named in its first SYS5 for a trap since
it was created. -/
def firstVector (p : Pid) (type : TrapType) : List (Config × Entry) → Option (Word × Word)
  | [] => none
  | (c, e) :: l => vectorStep c e p type (firstVector p type l)

/-- What a table holds for a trap. -/
def vectorAt (v : Option (Word × Word)) : Section → Word
  | .OLD => (v.map Prod.fst).getD NULL
  | .NEW => (v.map Prod.snd).getD NULL

/-- A SYS5 names a trap and two areas. -/
def Entry.NamesAreas (e : Entry) : Prop :=
  e.calls SESV → (TrapType.ofWord (e.state.s_reg s_a1)).isSome ∧
    e.state.s_reg s_a2 ≠ NULL ∧ e.state.s_reg s_a3 ≠ NULL

instance (e : Entry) : Decidable e.NamesAreas := inferInstanceAs (Decidable (_ → _ ∧ _ ∧ _))

/-- The areas that a live process uses for a trap are those of `f`. -/
structure Nucleus.Uses (f : Pid → TrapType → Option (Word × Word)) (n : Nucleus) : Prop where
  states : ∀ p ∉ n.queues.free, ∀ type, n.queues.states p type = vectorAt (f p type)
  named : ∀ p ∉ n.queues.free, ∀ type, ∀ v ∈ f p type, v.2 ≠ NULL

/-- The call kills its caller with all descendants before the scheduler is called,
and the tables of trap areas stay as they are. -/
structure KillsCaller (M : Machine) (c : Config) (e : Entry) (p : Pid) : Prop where
  kills : ∃ need l k, Kernel.Killed p l ⟨c.kernel.heap, (e.enter c.kernel.data).advance⟩ k ∧
    ∀ n ≥ need, (executeOrderSixtySix M n (.to p)).run
        ⟨c.kernel.heap, (e.enter c.kernel.data).advance⟩ = .ok () k ∧
      (handler M n e.exception).run ⟨c.kernel.heap, e.enter c.kernel.data⟩ =
        (scheduler M >>= fun _ => throw .trap).run k
  installs : ∀ c', (nucleus M).step c e c' → c'.kernel.heap.pcb_states = c.kernel.heap.pcb_states

/-- The areas for traps after a run. -/
structure Vectored (M : Machine) (l : List (Config × Entry)) (c : Config) : Prop where
  /-- A live process has those of its own first SYS5. -/
  first : ∀ p ∉ c.kernel.heap.freeList, ∀ type,
    c.kernel.heap.pcb_states p type = vectorAt (firstVector p type l)
  /-- A trap is passed up through them. -/
  passesUp : ∀ {e : Entry} {p : Pid} {type : TrapType} {old new : Word},
    c.kernel.data.currentProcess = .to p → e.raises = some type →
    firstVector p type l = some (old, new) → M.writableState old = true →
    M.readableState new = true → ∀ n, (handler M n e.exception).run
        ⟨c.kernel.heap, e.enter c.kernel.data⟩ =
      .error (.LDST (.mem new) (stateAt (storeState e.mem old e.trapped) new))
        ⟨c.kernel.heap, { e.pass c.kernel.data with mem := storeState e.mem old e.trapped }⟩
  /-- A second SYS5 is the end of the process. -/
  second : ∀ {e : Entry} {p : Pid} {type : TrapType}, Specifies c e p type →
    (firstVector p type l).isSome → KillsCaller M c e p

variable {M : Machine} {h : Heap} {q : Queues} {d : Data} {c c' : Config} {e : Entry} {p : Pid}
  {type : TrapType} {n : Nucleus} {next : Next} {f : Pid → TrapType → Option (Word × Word)}
  {l : List (Config × Entry)}

@[simp] theorem vectorAt_none {s : Section} : vectorAt none s = NULL := by
  cases s <;> rfl

/-- The head of the free list is the pcb that SYS1 takes. -/
theorem Config.Live.head_freeList (hlive : c.Live M q) :
    c.kernel.heap.freeList.head? = q.free.head? := by
  rw [hlive.represents.freeList_eq hlive.settled.wf.free_nodup]

/-- Who is not free is not taken. -/
theorem Config.Live.not_allocates (hlive : c.Live M q) (hp : p ∉ q.free) : ¬ Allocates c e p := by
  rintro ⟨-, hhead⟩
  rw [hlive.head_freeList] at hhead
  exact hp (List.mem_of_head? hhead)

/-- No process loses its areas, and it keeps those it has. -/
theorem vectorStep_of_not_allocates {v : Option (Word × Word)} (halloc : ¬ Allocates c e p)
    (hkeep : v.isSome ∨ ¬ Specifies c e p type) : vectorStep c e p type v = v := by
  unfold vectorStep
  rw [if_neg halloc]
  rcases hkeep with hsome | hnot
  · obtain ⟨w, rfl⟩ := Option.isSome_iff_exists.mp hsome
    rfl
  · rw [if_neg hnot, Option.or_none]

/-- The tables of the live processes do not change. -/
theorem Nucleus.Uses.kept (hlive : c.Live M q) (huses : Nucleus.Uses f ⟨q, c.kernel.data⟩)
    (hfree : ∀ p ∉ n.queues.free, p ∉ q.free)
    (hstates : ∀ p ∉ n.queues.free, n.queues.states p = q.states p)
    (hkeep : ∀ p ∉ n.queues.free, ∀ type, (f p type).isSome ∨ ¬ Specifies c e p type) :
    n.Uses fun p type => vectorStep c e p type (f p type) := by
  have hstep : ∀ p ∉ n.queues.free, ∀ type, vectorStep c e p type (f p type) = f p type :=
    fun p hp type => vectorStep_of_not_allocates (hlive.not_allocates (hfree p hp)) (hkeep p hp type)
  refine ⟨fun p hp type => ?_, fun p hp type => ?_⟩
  · rw [hstep p hp, hstates p hp]
    exact huses.states p (hfree p hp) type
  · rw [hstep p hp]
    exact huses.named p (hfree p hp) type

/-- A pcb that is taken has no areas. -/
theorem Nucleus.Uses.created {c' : Pid} {rest : List Pid} (hlive : c.Live M q)
    (huses : Nucleus.Uses f ⟨q, c.kernel.data⟩) (hcalls : e.calls CREATE_PROCESS)
    (hfree : q.free = c' :: rest) (hrest : n.queues.free = rest)
    (hstates : n.queues.states = Function.update q.states c' fun _ _ => NULL) :
    n.Uses fun p type => vectorStep c e p type (f p type) := by
  have halloc : Allocates c e c' := ⟨hcalls, by rw [hlive.head_freeList, hfree]; rfl⟩
  have hnone : ∀ type, vectorStep c e c' type (f c' type) = none := fun type => if_pos halloc
  have hother : ∀ p ≠ c', p ∉ n.queues.free → p ∉ q.free ∧
      ∀ type, vectorStep c e p type (f p type) = f p type := by
    intro p hp hlive'
    have hp' : p ∉ q.free := by
      rw [hrest] at hlive'
      simpa [hfree, hp] using hlive'
    exact ⟨hp', fun type => vectorStep_of_not_allocates (hlive.not_allocates hp')
      (Or.inr fun hs => Entry.calls_ne hcalls (by decide) hs.1)⟩
  refine ⟨fun p hp type => ?_, fun p hp type v hv => ?_⟩
  · rw [hstates]
    by_cases hpc : p = c'
    · subst hpc
      rw [hnone, Function.update_self]
      funext s
      exact vectorAt_none.symm
    · obtain ⟨hp', hsame⟩ := hother p hpc hp
      rw [hsame, ← huses.states p hp', Function.update_of_ne hpc]
  · by_cases hpc : p = c'
    · subst hpc
      rw [hnone] at hv
      exact absurd hv nofun
    · obtain ⟨hp', hsame⟩ := hother p hpc hp
      rw [hsame] at hv
      exact huses.named p hp' type v hv

/-- A first SYS5. -/
theorem Nucleus.Uses.specified {r : Pid} {d' : Data} (hlive : c.Live M q)
    (huses : Nucleus.Uses f ⟨q, c.kernel.data⟩) (hspec : Specifies c e r type)
    (hareas : e.NamesAreas) (hnew : q.states r type .NEW = NULL) :
    Nucleus.Uses (fun p type => vectorStep c e p type (f p type)) ⟨q.setStates r fun t s =>
      if t = type then (match s with | .NEW => e.state.s_reg s_a3 | .OLD => e.state.s_reg s_a2)
      else q.states r t s, d'⟩ := by
  have hr : r ∉ q.free := fun hf =>
    hlive.settled.unplaced r hspec.2.1 (Queues.mem_placed.mpr (Or.inl hf))
  have hnone : f r type = none := by
    by_contra hne
    obtain ⟨v, hv⟩ := Option.ne_none_iff_exists'.mp hne
    have hheld := congrFun (huses.states r hr type) .NEW
    rw [hnew, hv] at hheld
    exact huses.named r hr type v hv hheld.symm
  have hfirst : vectorStep c e r type (f r type) =
      some (e.state.s_reg s_a2, e.state.s_reg s_a3) := by
    unfold vectorStep
    rw [if_neg (hlive.not_allocates hr), hnone, if_pos hspec]
    rfl
  have hother : ∀ p ∉ q.free, ∀ t, ¬ (p = r ∧ t = type) →
      vectorStep c e p t (f p t) = f p t := by
    intro p hp t hne
    refine vectorStep_of_not_allocates (hlive.not_allocates hp) (Or.inr fun hs => hne ⟨?_, ?_⟩)
    · simpa using hs.2.1.symm.trans hspec.2.1
    · simpa using hs.2.2.symm.trans hspec.2.2
  refine ⟨fun p hp t => ?_, fun p hp t v hv => ?_⟩
  · by_cases hpt : p = r ∧ t = type
    · obtain ⟨rfl, rfl⟩ := hpt
      rw [hfirst]
      funext s
      cases s <;> simp [Queues.setStates, vectorAt]
    · rw [hother p hp t hpt, ← huses.states p hp]
      by_cases hpr : p = r
      · subst hpr
        have ht : t ≠ type := fun ht => hpt ⟨rfl, ht⟩
        simp [Queues.setStates, ht]
      · exact congrFun (Function.update_of_ne hpr _ q.states) t
  · by_cases hpt : p = r ∧ t = type
    · obtain ⟨rfl, rfl⟩ := hpt
      rw [hfirst] at hv
      obtain rfl := Option.some.inj hv
      exact (hareas hspec.1).2.2
    · rw [hother p hp t hpt] at hv
      exact huses.named p hp t v hv

theorem Service.uses {number : Int} (hlive : c.Live M q)
    (huses : Nucleus.Uses f ⟨q, c.kernel.data⟩) (hareas : e.NamesAreas) (hcalls : e.calls number)
    (hact : Service M q (e.enter c.kernel.data).advance number n next) :
    n.Uses fun p type => vectorStep c e p type (f p type) := by
  have harg : ∀ r, (e.enter c.kernel.data).advance.arg r = e.state.s_reg r := fun _ =>
    Entry.advance_arg hcalls.1
  have hother : number ≠ SESV → ∀ p type, ¬ Specifies c e p type := fun hne p type hs =>
    Entry.calls_ne hcalls hne hs.1
  have herase : ∀ {l : List Pid} {p : Pid}, p ∉ (q.erase l).free → p ∉ q.free := fun hp hf =>
    hp (List.mem_append_right _ hf)
  cases hact with
  | create _ hfree _ => exact .created hlive huses hcalls hfree (congrArg List.tail hfree) rfl
  | createFault _ hfree _ => exact .created hlive huses hcalls hfree (congrArg List.tail hfree) rfl
  | terminate _ _ =>
    exact .kept hlive huses (fun _ => herase) (fun _ _ => rfl)
      fun p _ type => Or.inr (hother (by decide) p type)
  | @sesvKill r l type hcur htype hnew _ =>
    rw [harg] at htype
    refine .kept hlive huses (fun _ => herase) (fun _ _ => rfl) fun p hp t => ?_
    by_cases hs : Specifies c e p t
    · left
      obtain rfl : p = r := by simpa using hs.2.1.symm.trans hcur
      obtain rfl : t = type := by simpa using hs.2.2.symm.trans htype
      rw [congrFun (huses.states p (herase hp) t) .NEW] at hnew
      rcases hf : f p t with - | v
      · rw [hf] at hnew
        exact absurd rfl hnew
      · rfl
    · exact Or.inr hs
  | sesv hcur htype hnew =>
    simp only [harg] at htype ⊢
    exact .specified hlive huses ⟨hcalls, hcur, htype⟩ hareas hnew
  | nobody _ hcur =>
    refine .kept hlive huses (fun _ => id) (fun _ _ => rfl) fun p _ type => Or.inr fun hs => ?_
    exact absurd (hcur.symm.trans hs.2.1) (by simp)
  | _ =>
    exact .kept hlive huses (fun _ => id) (fun _ _ => rfl)
      fun p _ type => Or.inr (hother (by decide) p type)

/-- An exception that is no service leaves the areas as they are. -/
theorem Nucleus.Uses.unserved (hlive : c.Live M q) (huses : Nucleus.Uses f ⟨q, c.kernel.data⟩)
    (hcalls : ∀ number, e.calls number → number < CREATE_PROCESS ∨ WAITIO < number)
    (hfree : ∀ p ∉ n.queues.free, p ∉ q.free) (hstates : n.queues.states = q.states) :
    n.Uses fun p type => vectorStep c e p type (f p type) :=
  .kept hlive huses hfree (fun _ _ => by rw [hstates])
    fun _ _ _ => Or.inr fun hs => absurd (hcalls _ hs.1) (by decide)

theorem Nucleus.states_wakeAll {a : Word} :
    (Nucleus.wakeAll a n).queues.states = n.queues.states := by
  unfold Nucleus.wakeAll
  generalize n.queues.waiting a = l
  induction l generalizing n with
  | nil => rfl
  | cons x l ih => exact ih (n := ⟨n.queues.wake x, n.data.wake x⟩)

theorem Nucleus.states_signal {a : Word} :
    (Nucleus.signal a n).queues.states = n.queues.states := by
  unfold Nucleus.signal
  split
  · rfl
  · dsimp only
    split <;> rfl

theorem Nucleus.states_preempt : n.preempt.queues.states = n.queues.states := by
  unfold Nucleus.preempt
  split <;> rfl

theorem Nucleus.states_finish : (next.finish n).2.queues.states = n.queues.states := by
  cases next with
  | stop x => rfl
  | sched resume =>
    simp only [Next.finish, Nucleus.schedule]
    split <;> rfl

theorem PullUp.uses (hlive : c.Live M q) (huses : Nucleus.Uses f ⟨q, c.kernel.data⟩)
    (hcalls : ∀ number, e.calls number → number < CREATE_PROCESS ∨ WAITIO < number)
    (hact : PullUp M q d type n next) : n.Uses fun p type => vectorStep c e p type (f p type) := by
  cases hact with
  | die _ _ _ _ =>
    exact .unserved hlive huses hcalls (fun p hp hf => hp (List.mem_append_right _ hf)) rfl
  | _ => exact .unserved hlive huses hcalls (fun _ => id) rfl

theorem Interrupt.uses {cause : Word} (hlive : c.Live M q)
    (huses : Nucleus.Uses f ⟨q, c.kernel.data⟩)
    (hcalls : ∀ number, e.calls number → number < CREATE_PROCESS ∨ WAITIO < number)
    (hact : Interrupt M q d cause n next) :
    n.Uses fun p type => vectorStep c e p type (f p type) := by
  suffices hsame : n.queues.free = q.free ∧ n.queues.states = q.states by
    exact .unserved hlive huses hcalls (fun _ hp => hsame.1 ▸ hp) hsame.2
  cases hact with
  | panic _ => exact ⟨rfl, rfl⟩
  | quantum _ => exact ⟨Nucleus.family_preempt.1, Nucleus.states_preempt⟩
  | clock _ _ =>
    exact ⟨Nucleus.family_preempt.1.trans Nucleus.family_wakeAll.1,
      Nucleus.states_preempt.trans Nucleus.states_wakeAll⟩
  | device _ _ _ =>
    exact ⟨Nucleus.family_preempt.1.trans Nucleus.family_signal.1,
      Nucleus.states_preempt.trans Nucleus.states_signal⟩

theorem Handles.uses (hlive : c.Live M q) (huses : Nucleus.Uses f ⟨q, c.kernel.data⟩)
    (hareas : e.NamesAreas) (hact : Handles M q (e.enter c.kernel.data) e.exception n next) :
    n.Uses fun p type => vectorStep c e p type (f p type) := by
  rcases hact.cases_enter with ⟨number, hcalls, -, -, hact⟩ | ⟨type, hraises, hact⟩ | ⟨hex, hact⟩
  · exact hact.uses hlive huses hareas hcalls
  · exact hact.uses hlive huses (Entry.calls_of_raises hraises)
  · exact hact.uses hlive huses fun _ hcalls => absurd (hex.symm.trans hcalls.1) nofun

theorem Nucleus.Uses.finish (huses : n.Uses f) : (next.finish n).2.Uses f := by
  obtain ⟨hstates, hnamed⟩ := huses
  have hfree : (next.finish n).2.queues.free = n.queues.free := Nucleus.family_finish.1
  refine ⟨?_, ?_⟩
  · rw [hfree, Nucleus.states_finish]
    exact hstates
  · rw [hfree]
    exact hnamed

theorem Nucleus.Uses.first {k : Kernel} {d' : Data} (huses : Nucleus.Uses f ⟨q, d'⟩)
    (hrep : Represents k.heap q) (hfree : q.free.Nodup) : ∀ p ∉ k.heap.freeList, ∀ type,
      k.heap.pcb_states p type = vectorAt (f p type) := by
  rw [hrep.freeList_eq hfree, hrep.states]
  exact huses.states

/-- A call that derails the nucleus leaves the right areas behind as well. -/
theorem Derails.first {number : Int} {k : Kernel} (hlive : c.Live M q)
    (huses : Nucleus.Uses f ⟨q, c.kernel.data⟩) (hcalls : e.calls number)
    (hderails : Derails q d number k) : ∀ p ∉ k.heap.freeList, ∀ type,
      k.heap.pcb_states p type = vectorAt (vectorStep c e p type (f p type)) := by
  have hnodup := hlive.settled.wf.free_nodup
  cases hderails with
  | @create k p rest _ hfree _ hrep =>
    have huses' : Nucleus.Uses _ ⟨q.alloc p, k.data⟩ :=
      .created hlive huses hcalls hfree (congrArg List.tail hfree) rfl
    exact huses'.first hrep (hlive.settled.wf.alloc hfree).free_nodup
  | @clock k m _ _ _ hrep _ _ =>
    have huses' : Nucleus.Uses _ ⟨{ q with asl := m }, k.data⟩ :=
      .kept hlive huses (fun _ => id) (fun _ _ => rfl)
        fun _ _ _ => Or.inr fun hs => Entry.calls_ne hcalls (by decide) hs.1
    exact huses'.first hrep hnodup

theorem trace_uses (htrace : (nucleus M).Trace l c) (hareas : ∀ t ∈ l, t.2.NamesAreas) :
    (∃ q, c.Live M q ∧ Nucleus.Uses (fun p type => firstVector p type l) ⟨q, c.kernel.data⟩) ∨
    (c.Dead ∧ ∀ p ∉ c.kernel.heap.freeList, ∀ type,
      c.kernel.heap.pcb_states p type = vectorAt (firstVector p type l)) := by
  induction htrace with
  | init hinit =>
    obtain ⟨-, hrep, hbooted⟩ := nucleus_init hinit
    have hall : ∀ p, p = firstPid ∨ p ∈ Queues.booted.free := by decide
    refine Or.inl ⟨_, ⟨hrep, hbooted.settled⟩, fun p hp type => ?_, fun _ _ _ => nofun⟩
    obtain rfl := (hall p).resolve_right hp
    funext s
    exact vectorAt_none.symm
  | @step l c c' e htrace hstep ih =>
    obtain ⟨hareas', hareas⟩ := List.forall_mem_cons.mp hareas
    rcases ih hareas with ⟨q, hlive, huses⟩ | ⟨hdead, hfirst⟩
    · rcases step_spec hstep hlive.represents hlive.settled with
        ⟨n, next, hfollows⟩ | ⟨hex, -, huser, hstop, hderails⟩
      · refine Or.inl ⟨_, hfollows.live hlive.represents (hlive.settled.congr rfl rfl), ?_⟩
        rw [hfollows.data]
        exact (hfollows.handles.uses hlive huses hareas').finish
      · exact Or.inr ⟨.of_derails hstop hderails,
          hderails.first hlive huses ((Entry.calls_iff hex).mpr ⟨huser, rfl⟩)⟩
    · obtain ⟨hdead', hkernel⟩ := hdead.step hstep
      have hno : ∀ number, ¬ e.calls number := fun number hcalls =>
        absurd ((hdead.exception hstep.1).symm.trans hcalls.1) nofun
      refine Or.inr ⟨hdead', ?_⟩
      rw [hkernel]
      intro p hp type
      rw [firstVector, vectorStep_of_not_allocates (fun ha => hno _ ha.1)
        (Or.inr fun hs => hno _ hs.1)]
      exact hfirst p hp type

/-- A SYS5 for a trap that the caller has an area for kills the caller. -/
theorem Specifies.kills (hlive : c.Live M q) (hrooted : q.Rooted) (hspec : Specifies c e p type)
    (hnew : c.kernel.heap.pcb_states p type .NEW ≠ NULL) : KillsCaller M c e p := by
  obtain ⟨hcalls, hcur, htype⟩ := hspec
  obtain ⟨hrep, hn⟩ := hlive
  rw [hrep.states] at hnew
  have hex := hcalls.1
  have hn' : Nucleus.Settled M ⟨q, (e.enter c.kernel.data).advance⟩ := hn.congr rfl rfl
  obtain ⟨huser, hnumber⟩ := (Entry.calls_iff (d := c.kernel.data) hex).mp hcalls
  have hvalid : validCall (e.enter c.kernel.data) := by
    unfold validCall
    rw [hnumber]
    decide
  have htype' : TrapType.ofWord ((e.enter c.kernel.data).advance.arg s_a1) = some type := by
    rw [Entry.advance_arg hex, htype]
  have hrun : ∀ n, (handler M n e.exception).run ⟨c.kernel.heap, e.enter c.kernel.data⟩ =
      (executeOrderSixtySix M n (.to p) >>= fun _ => scheduler M >>= fun _ => throw .trap).run
        ⟨c.kernel.heap, (e.enter c.kernel.data).advance⟩ := by
    intro n
    have hagain := run_sysBYOL_again (M := M) (n := n) (d := (e.enter c.kernel.data).advance) hrep
      hcur htype' hnew
    unfold sysSendToNorthKorea at hagain
    simp only [bind_assoc] at hagain
    rw [bind_get, show (Kernel.data ⟨c.kernel.heap, (e.enter c.kernel.data).advance⟩).currentProcess
      = .to p from hcur] at hagain
    rw [hex]
    refine (run_sysCallHandler_service hvalid huser).trans ?_
    rw [hnumber]
    refine (Exec.run_bind_congr hagain).trans ?_
    simp only [bind_assoc]
    refine run_kill_congr hrep hn' hcur fun h'' d'' hnull => ?_
    rw [bind_get]
    simp only [hnull]
    exact Exec.run_bind_error run_setTrapArea_null
  constructor
  · obtain ⟨need, l, k, hdone, hkilled⟩ := executeOrderSixtySix_killed
      (d := (e.enter c.kernel.data).advance) hrep hn hrooted hcur hcur
    refine ⟨need, l, k, hkilled, fun n hneed => ⟨hdone n hneed, ?_⟩⟩
    rw [hrun n, Exec.run_bind_ok (hdone n hneed)]
  · intro c' hstep
    obtain ⟨n, next, hfollows⟩ | ⟨-, -, -, -, hderails⟩ := step_spec hstep hrep hn
    · have hstates : n.queues.states = q.states := by
        rcases hfollows.handles.cases_enter with
          ⟨number, hcalls', -, -, hact⟩ | ⟨type, hraises, -⟩ | ⟨hint, -⟩
        · obtain rfl := hcalls.2.2.symm.trans hcalls'.2.2
          cases hact with
          | sesvKill _ _ _ _ => rfl
          | @sesv r t hcur' ht hnone =>
            obtain rfl : p = r := by simpa using hcur.symm.trans hcur'
            obtain rfl : type = t := by simpa using htype'.symm.trans ht
            exact absurd hnone hnew
          | nobody _ _ => rfl
        · exact absurd (Entry.calls_of_raises hraises _ hcalls) (by decide)
        · exact absurd (hint.symm.trans hex) nofun
      rw [hfollows.represents.states, hrep.states, Nucleus.states_finish, hstates]
    · rw [hnumber] at hderails
      exact absurd hderails nofun

/-- The areas that a trap is passed up through are those of the process's own first
SYS5, and there is no second one. -/
theorem vectored_of_trace (htrace : (nucleus M).Trace l c) (hareas : ∀ t ∈ l, t.2.NamesAreas) :
    Vectored M l c := by
  have hfirst : ∀ p ∉ c.kernel.heap.freeList, ∀ type,
      c.kernel.heap.pcb_states p type = vectorAt (firstVector p type l) := by
    rcases trace_uses htrace hareas with ⟨q, hlive, huses⟩ | ⟨-, hfirst⟩
    · exact huses.first hlive.represents hlive.settled.wf.free_nodup
    · exact hfirst
  have hlive : ∀ {p}, c.kernel.data.currentProcess = .to p → ∃ q, c.Live M q ∧ p ∉ q.free ∧
      Nucleus.Uses (fun p type => firstVector p type l) ⟨q, c.kernel.data⟩ := by
    intro p hcur
    rcases trace_uses htrace hareas with ⟨q, hlive, huses⟩ | ⟨hdead, -⟩
    · exact ⟨q, hlive, fun hf =>
        hlive.settled.unplaced p hcur (Queues.mem_placed.mpr (Or.inl hf)), huses⟩
    · exact absurd (hdead.current.symm.trans hcur) (by simp)
  refine ⟨hfirst, ?_, ?_⟩
  · intro e p type old new hcur hraises hvector hw hr n
    obtain ⟨q, hlive, hp, huses⟩ := hlive hcur
    have hold : q.states p type .OLD = old := by rw [huses.states p hp, hvector]; rfl
    have hnew : q.states p type .NEW = new := by rw [huses.states p hp, hvector]; rfl
    have hne : new ≠ NULL := huses.named p hp type _ hvector
    subst hold hnew
    exact run_handler_passUp hlive.represents hcur hraises hne hw hr
  · intro e p type hspec hsome
    obtain ⟨q, hlive', hp, huses⟩ := hlive hspec.2.1
    obtain ⟨v, hvector⟩ := Option.isSome_iff_exists.mp hsome
    have hnew : c.kernel.heap.pcb_states p type .NEW ≠ NULL := by
      rw [hlive'.represents.states, huses.states p hp, hvector]
      exact huses.named p hp type v hvector
    rcases reachable_rooted ⟨l, htrace⟩ with ⟨q', hlive'', hrooted⟩ | hdead
    · exact hspec.kills hlive'' hrooted hnew
    · exact absurd (hdead.current.symm.trans hspec.2.1) (by simp)

/-- A child names its areas for program traps, traps, and ends with its second SYS5 for them. The
next child gets its pcb, and names other areas. -/
def vectorCues : List Cue := [.call 1 0x20001000 0 0, .slice, .call 5 1 0x20004000 0x20005000,
  .programTrap, .call 5 1 0x20008000 0x20009000, .call 1 0x20001000 0 0, .slice,
  .call 5 1 0x20006000 0x20007000]

theorem vectored_of_trace_small :
    Vectored smallMachine (smallScript.history smallBoot vectorCues []) (smallPlay vectorCues) := by
  have htrace : (nucleus smallMachine).Trace (smallScript.history smallBoot vectorCues [])
      (smallPlay vectorCues) :=
    smallScript_follows.trace (.init (boot_init _ _ _)) (by decide +kernel)
  exact vectored_of_trace htrace (by decide +kernel)

/-- The second child uses its own areas. -/
example : firstVector 18 .PROGTRAP (smallScript.history smallBoot vectorCues []) =
    some (0x20006000, 0x20007000) := by
  decide +kernel

end Kaya
