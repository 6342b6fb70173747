import Kaya.Exec.Semaphores
import Kaya.Phase2.SemaphoreRuns
import Kaya.Phase2.TerminalRuns

open Links Exec

namespace Kaya

/-- The values of all `int`s and the processes that wait for them. -/
def Config.semaphores (c : Config) : Semaphores Word Pid where
  value a := (c.kernel.data.mem a).toInt
  queue a := c.kernel.heap.blockedOn a

/-- The processes that a step ends. -/
def endedBy (c c' : Config) : List Pid :=
  c'.kernel.heap.freeList.filter (· ∉ c.kernel.heap.freeList)

def killsOf (c c' : Config) : List (SemEvent Word Pid) :=
  if endedBy c c' = [] then [] else [.kill (endedBy c c')]

/-- What is seen of a step at the semaphores of `A`: a P or a V of the current process, or
the end of processes. -/
def semEvents (A : List Word) (c : Config) (e : Entry) (c' : Config) : List (SemEvent Word Pid) :=
  match c.kernel.data.currentProcess with
  | .to p =>
    if e.calls PASSEREN ∧ e.state.s_reg s_a1 ∈ A then [.wait p (e.state.s_reg s_a1)]
    else if e.calls VERHOGEN ∧ e.state.s_reg s_a1 ∈ A then [.signal p (e.state.s_reg s_a1)]
    else killsOf c c'
  | _ => killsOf c c'

variable {M : Machine} {q : Queues} {d : Data} {n : Nucleus} {next : Next} {c c' : Config} {e : Entry}
  {a : Word} {p : Pid} {A : List Word} {m : Semaphores Word Pid}

namespace Semaphore

variable {s : Semaphore} {l l' : List Pid}

theorem kill_nil : s.kill [] = s := by
  simp [Semaphore.kill]

/-- Only those count that wait. -/
theorem kill_congr (h : ∀ x ∈ s.waiting, x ∈ l ↔ x ∈ l') : s.kill l = s.kill l' := by
  have hcount : s.waiting.countP (· ∈ l) = s.waiting.countP (· ∈ l') :=
    List.countP_congr fun x hx => by simpa using h x hx
  have hfilter : s.waiting.filter (· ∉ l) = s.waiting.filter (· ∉ l') :=
    List.filter_congr fun x hx => by simp [h x hx]
  rw [Semaphore.kill, Semaphore.kill, hcount, hfilter]

theorem Balanced.value_wait (hs : s.Balanced) (hnodup : s.waiting.Nodup) :
    (s.wait p).value.toInt = s.value.toInt - 1 ∧
      (s.wait p).waiting = if s.value.toInt - 1 < 0 then s.waiting ++ [p] else s.waiting := by
  have hlow := hs.le_value hnodup
  have hmax : MAXPROC = 20 := rfl
  have hsub := toInt_sub_one (s := s) (by omega)
  refine ⟨hsub, ?_⟩
  simp only [Semaphore.wait, hsub]

theorem value_signal (hmax : s.value.toInt ≠ 2 ^ 31 - 1) :
    s.signal.value.toInt = s.value.toInt + 1 ∧
      s.signal.waiting = if s.value.toInt + 1 ≤ 0 then s.waiting.tail else s.waiting := by
  have hlt := BitVec.toInt_lt (x := s.value)
  have hadd : (s.value + 1).toInt = s.value.toInt + 1 := toInt_add_ofNat (k := 1) (by omega)
  refine ⟨hadd, ?_⟩
  simp only [Semaphore.signal, hadd]

theorem Balanced.value_kill (hs : s.Balanced) :
    (s.kill l).value.toInt = s.value.toInt + s.waiting.countP (· ∈ l) := by
  have hle := List.countP_le_length (p := (· ∈ l)) (l := s.waiting)
  have hlt := BitVec.toInt_lt (x := s.value)
  unfold Balanced at hs
  exact toInt_add_ofNat (by omega)

end Semaphore

/-- Who waits where no V is made still does, or has been killed. -/
theorem Handles.stays_outside (hn : Nucleus.Settled M ⟨q, e.enter c.kernel.data⟩)
    (hdevice : ¬ M.onDevice a) (huses : ¬ e.Uses a)
    (hact : Handles M q (e.enter c.kernel.data) e.exception n next) : q.Stays a n.queues := by
  rcases hact.cases_enter with ⟨number, hcalls, -, -, hact⟩ | ⟨type, -, hact⟩ | ⟨hex, hact⟩
  · refine hact.stays hn.wf fun hnumber => ?_
    subst hnumber
    rw [Entry.advance_arg hcalls.1]
    exact fun harg => huses ⟨.inl hcalls, harg⟩
  · exact hact.stays hn.wf
  · have hn' : Nucleus.Settled M ⟨q, (e.enter c.kernel.data).stopClock⟩ := hn.congr rfl rfl
    exact .of_eq (congrArg Semaphore.waiting (hact.semaphore_other hn' hdevice))

/-- P and V end nobody. -/
theorem Service.free_uses {call : Int} (hact : Service M q d call n next)
    (hcall : call = 3 ∨ call = 4) :
    n.queues.free = q.free := by
  cases hact with
  | signal _ _ _ => rfl
  | signalWake _ _ _ _ => rfl
  | signalFault _ => rfl
  | wait _ _ _ => rfl
  | waitBlock _ _ _ _ => rfl
  | waitNobody _ _ _ _ => rfl
  | waitFault _ => rfl
  | nobody hmem _ => rfl
  | _ => omega

/-- A step of a nucleus that has not died. -/
theorem Config.Exact.follows (hc : c.Exact M q) (hstep : (nucleus M).step c e c') :
    ∃ n next, c'.Follows M q (e.enter c.kernel.data) e.exception n next := by
  refine (step_spec hstep hc.represents hc.settled).resolve_right ?_
  rintro ⟨hex, -, -, -, hderails⟩
  have hnull : c.kernel.data.currentProcess = .null := by
    generalize callNumber (e.enter c.kernel.data) = call at hderails
    cases hderails with
    | create hcur _ _ => exact hcur
    | clock hcur _ _ _ _ _ => exact hcur
  have hinterrupt := hc.interrupt hstep.1 hnull
  rw [hex] at hinterrupt
  exact absurd hinterrupt (by simp)

theorem Config.Live.mem_freeList (hc : c.Live M q) : p ∈ c.kernel.heap.freeList ↔ p ∈ q.free := by
  rw [hc.represents.freeList_eq hc.settled.wf.free_nodup]

theorem Config.Live.not_free (hc : c.Live M q) (hp : p ∈ c.kernel.heap.blockedOn a) :
    p ∉ c.kernel.heap.freeList := by
  rw [hc.represents.blockedOn_eq] at hp
  rw [hc.mem_freeList]
  exact fun hfree => hc.settled.wf.not_blocked_of_free hfree (Queues.mem_values_of_mem_waiting hp)

/-- A semaphore on which a step does no P and no V. -/
theorem Config.Exact.semaphore_kill (hc : c.Exact M q) (hstep : (nucleus M).step c e c')
    (hw : M.writable a = true) (ha : ¬ deviceRange M a) (hundisturbed : Undisturbed a c e)
    (huses : ¬ e.Uses a) : c'.kernel.semaphore a = (c.kernel.semaphore a).kill (endedBy c c') := by
  have hdevice : ¬ M.onDevice a := fun h => ha ((deviceRange_iff hw).mpr (.inl h))
  have hn : Nucleus.Settled M ⟨q, e.enter c.kernel.data⟩ := hc.settled.congr rfl rfl
  obtain ⟨n, next, hfollows⟩ := hc.follows hstep
  have hlive := hfollows.live hc.represents hn
  have hstays : ∀ x ∈ c.kernel.heap.blockedOn a,
      x ∈ c'.kernel.heap.blockedOn a ∨ x ∈ c'.kernel.heap.freeList := by
    intro x hx
    rw [hc.represents.blockedOn_eq] at hx
    have hwaiting : c'.kernel.heap.blockedOn a = n.queues.waiting a :=
      congrArg Semaphore.waiting hfollows.semaphore
    have hfree : (next.finish n).2.queues.free = n.queues.free := Nucleus.family_finish.1
    rw [hwaiting, hlive.mem_freeList, hfree]
    exact hfollows.handles.stays_outside hn hdevice huses x hx
  have hsome : ∃ l, c'.kernel.semaphore a = (c.kernel.semaphore a).kill l := by
    cases hc.semaphore_step hstep hw ha hundisturbed with
    | signal hcalls harg _ _ => exact absurd ⟨.inl hcalls, harg⟩ huses
    | wait hcalls harg _ _ => exact absurd ⟨.inr hcalls, harg⟩ huses
    | kill _ hkill => exact ⟨_, hkill⟩
    | same _ hsame => exact ⟨[], hsame.trans Semaphore.kill_nil.symm⟩
  obtain ⟨l, hkill⟩ := hsome
  have hwaiting : c'.kernel.heap.blockedOn a = (c.kernel.heap.blockedOn a).filter (· ∉ l) :=
    congrArg Semaphore.waiting hkill
  rw [hkill]
  refine Semaphore.kill_congr fun x (hx : x ∈ c.kernel.heap.blockedOn a) => ?_
  have hended : x ∈ endedBy c c' ↔ x ∈ c'.kernel.heap.freeList := by
    simp [endedBy, hc.not_free hx]
  have hleft : x ∈ c'.kernel.heap.blockedOn a ↔ x ∉ l := by
    rw [hwaiting]
    simp [hx]
  rw [hended]
  constructor
  · exact fun hxl => (hstays x hx).resolve_left fun hstill => hleft.mp hstill hxl
  · intro hfree
    by_contra hxl
    exact hlive.not_free (hleft.mpr hxl) hfree

/-- P and V end nobody. -/
theorem Config.Exact.endedBy_uses (hc : c.Exact M q) (hstep : (nucleus M).step c e c')
    (hcalls : e.calls VERHOGEN ∨ e.calls PASSEREN) : endedBy c c' = [] := by
  have hn : Nucleus.Settled M ⟨q, e.enter c.kernel.data⟩ := hc.settled.congr rfl rfl
  obtain ⟨n, next, hfollows⟩ := hc.follows hstep
  have hfree : n.queues.free = q.free := by
    rcases hcalls with hcalls | hcalls
    · exact (hfollows.handles.serves hcalls (by decide) (by decide)).free_uses (.inl rfl)
    · exact (hfollows.handles.serves hcalls (by decide) (by decide)).free_uses (.inr rfl)
  have hlive := hfollows.live hc.represents hn
  have hfinish : (next.finish n).2.queues.free = n.queues.free := Nucleus.family_finish.1
  apply List.filter_eq_nil_iff.mpr
  intro x hx
  rw [hlive.mem_freeList, hfinish, hfree, ← hc.mem_freeList] at hx
  simpa using hx

/-- The runs from states in which nobody waits for the semaphores of `A`. -/
def sharedSystem (M : Machine) (A : List Word) : System Config Entry where
  init c := ((nucleus M).restrict fun _ e _ => e.Outside M).Reachable c ∧
    ∀ a ∈ A, 0 ≤ c.semaphores.value a ∧ c.semaphores.queue a = []
  step c e c' := (nucleus M).step c e c' ∧ e.Outside M ∧ ∀ a ∈ A, Proper M a c e

/-- The nucleus has the semaphores of `A` as they should be. -/
structure Tracks (M : Machine) (A : List Word) (c : Config) (m : Semaphores Word Pid) : Prop where
  value : ∀ a ∈ A, m.value a = (c.kernel.semaphore a).value.toInt
  queue : ∀ a ∈ A, m.queue a = (c.kernel.semaphore a).waiting
  balanced : ∀ a ∈ A, (c.kernel.semaphore a).Balanced
  exact : ∃ q, c.Exact M q ∧ c.kernel.heap.blockedOn M.semEnd = []

theorem Config.Exact.exists_current (hc : c.Exact M q) (hlegal : Legal M c e)
    (hex : e.exception = .SYSCALL) : ∃ p, c.kernel.data.currentProcess = .to p := by
  rcases hcur : c.kernel.data.currentProcess with - | - | p
  · have hinterrupt := hc.interrupt hlegal hcur
    rw [hex] at hinterrupt
    exact absurd hinterrupt (by simp)
  · exact absurd hcur hc.settled.current
  · exact ⟨p, rfl⟩

/-- A P or a V on a semaphore of `A`, at that semaphore. -/
theorem Tracks.uses (htracks : Tracks M A c m) (hc : c.Exact M q) (hstep : (nucleus M).step c e c')
    (hw : M.writable (e.state.s_reg s_a1) = true) (ha : ¬ deviceRange M (e.state.s_reg s_a1))
    (hproper : Proper M (e.state.s_reg s_a1) c e) (hmem : e.state.s_reg s_a1 ∈ A)
    (hcalls : e.calls VERHOGEN ∨ e.calls PASSEREN) :
    ∃ ev : SemEvent Word Pid, semEvents A c e c' = [ev] ∧ ev.semaphore = some (e.state.s_reg s_a1) ∧
      (m.after ev).value (e.state.s_reg s_a1) = (c'.kernel.semaphore (e.state.s_reg s_a1)).value.toInt ∧
      (m.after ev).queue (e.state.s_reg s_a1) = (c'.kernel.semaphore (e.state.s_reg s_a1)).waiting := by
  obtain ⟨p, hcur⟩ := hc.exists_current hstep.1 (hcalls.elim And.left And.left)
  have hvalue := htracks.value _ hmem
  have hqueue := htracks.queue _ hmem
  cases hc.semaphore_step hstep hw ha hproper.toUndisturbed with
  | @wait p' hP _ hcur' hafter =>
    obtain rfl : p' = p := by simpa [hcur] using hcur'.symm
    have hnodup : (c.kernel.semaphore (e.state.s_reg s_a1)).waiting.Nodup := by
      show (c.kernel.heap.blockedOn _).Nodup
      rw [hc.represents.blockedOn_eq]
      exact hc.settled.wf.waiting_nodup _
    obtain ⟨hvalue', hqueue'⟩ := (htracks.balanced _ hmem).value_wait (p := p') hnodup
    refine ⟨.wait p' (e.state.s_reg s_a1), by simp [semEvents, hcur, hP, hmem], rfl, ?_, ?_⟩
    · rw [hafter, hvalue', ← hvalue]
      exact Function.update_self _ _ _
    · rw [hafter, hqueue', ← hvalue, ← hqueue]
      simp only [Semaphores.after]
      split <;> simp
  | signal hV _ hafter _ =>
    have hP : ¬ e.calls PASSEREN := Entry.calls_ne hV (by decide)
    obtain ⟨hvalue', hqueue'⟩ := Semaphore.value_signal (s := c.kernel.semaphore (e.state.s_reg s_a1))
      fun heq => hproper.overflow ⟨hV, rfl, heq⟩
    refine ⟨.signal p (e.state.s_reg s_a1), by simp [semEvents, hcur, hP, hV, hmem], rfl, ?_, ?_⟩
    · rw [hafter, hvalue', ← hvalue]
      exact Function.update_self _ _ _
    · rw [hafter, hqueue', ← hvalue, ← hqueue]
      simp only [Semaphores.after]
      split <;> simp
  | kill hnot _ => exact absurd ⟨hcalls, rfl⟩ hnot
  | same hnot _ => exact absurd ⟨hcalls, rfl⟩ hnot

/-- A step without a P or a V on the semaphores of `A`. -/
theorem Tracks.kills (htracks : Tracks M A c m)
    (hkill : ∀ a ∈ A, c'.kernel.semaphore a = (c.kernel.semaphore a).kill (endedBy c c'))
    (hbalanced : ∀ a ∈ A, (c'.kernel.semaphore a).Balanced)
    (hexact : ∃ q, c'.Exact M q ∧ c'.kernel.heap.blockedOn M.semEnd = []) :
    ∃ m', (Semaphores.system Word Pid).Does m (killsOf c c') m' ∧ Tracks M A c' m' := by
  by_cases hended : endedBy c c' = []
  · rw [killsOf, if_pos hended]
    rw [hended] at hkill
    refine ⟨m, .nil, fun a hmem => ?_, fun a hmem => ?_, hbalanced, hexact⟩
    · rw [hkill a hmem, Semaphore.kill_nil]
      exact htracks.value a hmem
    · rw [hkill a hmem, Semaphore.kill_nil]
      exact htracks.queue a hmem
  · rw [killsOf, if_neg hended]
    refine ⟨_, .single rfl, fun a hmem => ?_, fun a hmem => ?_, hbalanced, hexact⟩
    · rw [hkill a hmem, (htracks.balanced a hmem).value_kill, ← htracks.value a hmem,
        ← htracks.queue a hmem]
      rfl
    · rw [hkill a hmem, Semaphore.kill, ← htracks.queue a hmem]
      rfl

section

variable {c₀ : Config} {l : List (Entry × Config)} (hw : ∀ a ∈ A, M.writable a = true)
  (ha : ∀ a ∈ A, ¬ deviceRange M a)
include hw ha

/-- Every step of the nucleus is what semaphores do at what is seen of it. -/
theorem Tracks.step (htracks : Tracks M A c m) (hstep : (sharedSystem M A).step c e c') :
    ∃ m', (Semaphores.system Word Pid).Does m (semEvents A c e c') m' ∧ Tracks M A c' m' := by
  obtain ⟨hstep, houtside, hproper⟩ := hstep
  obtain ⟨q, hexact, hend⟩ := htracks.exact
  have hexact' := hexact.step_outside hstep houtside hend
  have hbalanced : ∀ a ∈ A, (c'.kernel.semaphore a).Balanced := fun a hmem =>
    (hexact.served hstep (hw a hmem) (ha a hmem) (hproper a hmem) (htracks.balanced a hmem)).1
  have hother : ∀ a ∈ A, ¬ e.Uses a →
      c'.kernel.semaphore a = (c.kernel.semaphore a).kill (endedBy c c') := fun a hmem =>
    hexact.semaphore_kill hstep (hw a hmem) (ha a hmem) (hproper a hmem).toUndisturbed
  by_cases hcalls : (e.calls VERHOGEN ∨ e.calls PASSEREN) ∧ e.state.s_reg s_a1 ∈ A
  · obtain ⟨hcalls, hmem⟩ := hcalls
    obtain ⟨ev, hevents, hon, hvalue, hqueue⟩ :=
      htracks.uses hexact hstep (hw _ hmem) (ha _ hmem) (hproper _ hmem) hmem hcalls
    have hsame : ∀ a ∈ A, a ≠ e.state.s_reg s_a1 → c'.kernel.semaphore a = c.kernel.semaphore a := by
      intro a hmem' hab
      rw [hother a hmem' fun huses => hab huses.2.symm, hexact.endedBy_uses hstep hcalls,
        Semaphore.kill_nil]
    rw [hevents]
    refine ⟨_, .single rfl, fun a hmem' => ?_, fun a hmem' => ?_, hbalanced, hexact'⟩
    · by_cases hab : a = e.state.s_reg s_a1
      · exact hab ▸ hvalue
      · rw [(Semaphores.after_of_ne hon hab).1, hsame a hmem' hab]
        exact htracks.value a hmem'
    · by_cases hab : a = e.state.s_reg s_a1
      · exact hab ▸ hqueue
      · rw [(Semaphores.after_of_ne hon hab).2, hsame a hmem' hab]
        exact htracks.queue a hmem'
  · have hevents : semEvents A c e c' = killsOf c c' := by
      rw [not_and, or_imp] at hcalls
      unfold semEvents
      split
      · rw [if_neg fun h => hcalls.2 h.1 h.2, if_neg fun h => hcalls.1 h.1 h.2]
      · rfl
    rw [hevents]
    refine htracks.kills (fun a hmem => hother a hmem fun huses => ?_) hbalanced hexact'
    exact hcalls ⟨huses.1, huses.2 ▸ hmem⟩

omit hw ha in
theorem tracks_start (hinit : (sharedSystem M A).init c) : Tracks M A c c.semaphores := by
  refine ⟨fun _ _ => rfl, fun _ _ => rfl, fun a hmem => ?_, exact_of_outside hinit.1⟩
  obtain ⟨hvalue, hqueue⟩ := hinit.2 a hmem
  have hnobody : (c.kernel.semaphore a).waiting = [] := hqueue
  have hpos : 0 ≤ (c.kernel.semaphore a).value.toInt := hvalue
  rw [Semaphore.Balanced, hnobody, List.length_nil]
  omega

theorem shared_simulation :
    Simulation (sharedSystem M A) (Semaphores.system Word Pid) (semEvents A) (Tracks M A) where
  init c hinit := ⟨c.semaphores, trivial, tracks_start hinit⟩
  step _ _ _ _ hstep htracks := htracks.step hw ha hstep

end

/-- The process has the mutex after a run: its last P has not been followed by a V, and it
does not wait. -/
def Inside (a : Word) (c₀ : Config) (l : List (Entry × Config)) (c : Config) (p : Pid) : Prop :=
  Semaphores.hasAfter a (observed (semEvents [a]) c₀ l) p = true ∧ p ∉ c.kernel.heap.blockedOn a

/-- The steps of processes that use one semaphore only. -/
def Shares (M : Machine) (a : Word) (c : Config) (e : Entry) (_ : Config) : Prop :=
  e.Outside M ∧ Proper M a c e

instance {c' : Config} : Decidable (Shares M a c e c') := inferInstanceAs (Decidable (_ ∧ _))

abbrev sharedScript : Script Config Entry Cue := smallScript.restrict (Shares smallMachine 0x20003000)

theorem sharedScript_follows :
    sharedScript.Follows (sharedSystem smallMachine [0x20003000]) := by
  intro c cue hfits
  obtain ⟨hstep, houtside, hproper⟩ := smallScript_follows.restrict c cue hfits
  refine ⟨hstep, houtside, fun a hmem => ?_⟩
  obtain rfl := List.mem_singleton.mp hmem
  exact hproper

/-- The child waits for the semaphore that its parent has taken. -/
def smallTaken : Config := sharedScript.play (semaphoreBoot 1) takingCues

def smallTaking : List (Entry × Config) := sharedScript.events (semaphoreBoot 1) takingCues

theorem small_init : (sharedSystem smallMachine [0x20003000]).init (semaphoreBoot 1) := by
  refine ⟨.init (boot_init _ _ _), fun a hmem => ?_⟩
  obtain rfl := List.mem_singleton.mp hmem
  decide +kernel

theorem small_path :
    (sharedSystem smallMachine [0x20003000]).Path (semaphoreBoot 1) smallTaking smallTaken :=
  sharedScript_follows.path (by decide +kernel)

theorem small_events : observed (semEvents [0x20003000]) (semaphoreBoot 1) smallTaking =
    [.wait firstPid 0x20003000, .wait 18 0x20003000] := by
  decide +kernel

theorem small_permits : Semaphores.Along 0x20003000 (Semaphores.Permits 0x20003000) (fun _ => false)
    (semaphoreBoot 1).semaphores (observed (semEvents [0x20003000]) (semaphoreBoot 1) smallTaking) := by
  rw [small_events]
  exact .cons (fun _ => rfl) (.cons (fun _ => by decide) .nil)

end Kaya
