import Kaya.Phase3.AdlNodes
import Kaya.Phase3.AvslRuns
import Kaya.Phase3.MutexRuns
import Kaya.Phase3.SleepCode

open Exec Prog Sleepers

namespace Kaya

variable {β : Type}

/-- The next operation of the process. -/
def About (c : UserPool β) (ID : Word) (o : Op) : Prop :=
  ∃ k held fs, c.stack ID = ⟨.call o k, held⟩ :: fs

/-- The process has called `call` and is about to sleep or sleeps, and nobody has
woken it or is about to. -/
structure Sleeps (c : UserPool β) (call ID : Word) : Prop where
  called : (c.shared.old ID).get (.s_reg s_a0) = call
  waits : About c ID (.passeren (.uProc_semAdd ID)) ∨ ID ∈ c.queue (.uProc_semAdd ID)
  value : c.value (.uProc_semAdd ID) ≤ 0
  unwoken : ∀ t, ¬ About c t (.verhogen (.uProc_semAdd ID))

/-- The lists of the sleepers in one state: one entry for each process that sleeps
with PSEMVIRT, with the semaphore it has called with, one node for each process that
sleeps with DELAY, and no others. A process that is about to get an entry does, and
one that is blocked on its private semaphore has an entry or somebody about to do a
V on it. -/
structure SleepersListed (c : UserPool β) (nodes avail : List Did) : Prop where
  psemvirt : ∀ a ID, (a, ID) ∈ c.shared.avsl.waiters ↔
    Sleeps c PSEMVIRT ID ∧ a = (c.shared.old ID).get (.s_reg s_a1)
  once : c.shared.avsl.waiters.Nodup
  lists : c.shared.adl.Lists nodes avail
  delay : ∀ ID, ID ∈ nodes.map c.shared.adl.d_asid ↔ Sleeps c DELAY ID
  once_delay : (nodes.map c.shared.adl.d_asid).Nodup
  room : ∀ ID a p, About c ID (.vInsertBlocked a p) →
    ∃ l, (vInsertBlocked a p).run c.shared.avsl = .ok true l
  room_delay : ∀ ID t p, About c ID (.insertDelay t p) →
    ∃ l, Returns (fun n => insertDelay n t p) c.shared.adl true l
  woken : ∀ ID x, x ∈ c.queue (.uProc_semAdd ID) → x = ID ∧
    ((∃ a, (a, ID) ∈ c.shared.avsl.waiters) ∨ ID ∈ nodes.map c.shared.adl.d_asid ∨
      ∃ t, About c t (.verhogen (.uProc_semAdd ID)))

/-- No process has run yet, the private semaphores are 0, and the lists of the
sleepers have been initialised. -/
structure Initialised (c : UserPool β) : Prop where
  rest : AtRest c
  private_zero : ∀ ID, c.value (.uProc_semAdd ID) = 0
  adl : adlSystem.init c.shared.adl
  avsl : avslSystem.init c.shared.avsl

/-- The user processes and the daemon in any order. -/
def sleeperSystem (β : Type) (S : Setup) : System (UserPool β) (Happening Word UserEntry Op) :=
  (userThreads S).system Initialised

/-- No process sleeps with DELAY, no pointer that a process passes leads to kernel
memory, and a V on a private semaphore is on that of a user process. -/
def Undelayed (S : Setup) (_ : UserPool β) (e : Happening Word UserEntry Op) (_ : UserPool β) : Prop :=
  match e with
  | .enter _ (.call _ st) => st.get (.s_reg s_a0) = DELAY →
      (st.get (.s_reg s_a1) * 1000000).toInt < 0
  | .perform _ (.storeWord a _) => S.vars a = false
  | .perform _ (.storeByte a _) => S.vars a = false
  | .perform _ (.verhogen (.uProc_semAdd ID)) => S.IsProcess ID
  | _ => True

/-- Whether a step meets the condition. -/
def isUndelayed (S : Setup) : Happening Word UserEntry Op → Bool
  | .enter _ (.call _ st) => decide (st.get (.s_reg s_a0) = DELAY →
      (st.get (.s_reg s_a1) * 1000000).toInt < 0)
  | .perform _ (.storeWord a _) => !S.vars a
  | .perform _ (.storeByte a _) => !S.vars a
  | .perform _ (.verhogen (.uProc_semAdd ID)) => decide (S.IsProcess ID)
  | _ => true

theorem isUndelayed_iff {S : Setup} {c c' : UserPool β} {e : Happening Word UserEntry Op} :
    isUndelayed S e = true ↔ Undelayed S c e c' := by
  cases e with
  | enter ID entry =>
    cases entry with
    | call n st => exact decide_eq_true_iff
    | _ => simp [isUndelayed, Undelayed]
  | leave ID => simp [isUndelayed, Undelayed]
  | perform ID o =>
    cases o with
    | verhogen s => cases s <;> simp [isUndelayed, Undelayed]
    | _ => simp [isUndelayed, Undelayed]

instance (S : Setup) (c : UserPool β) (e : Happening Word UserEntry Op) (c' : UserPool β) :
    Decidable (Undelayed S c e c') :=
  decidable_of_iff (isUndelayed S e = true) isUndelayed_iff

/-- What an operation says of the process that performs it next. A V beyond the end
of `uProcs` wakes nobody. -/
def Op.phase (S : Setup) : Op → Phase Word
  | .passeren (.uProc_semAdd _) => .registered
  | .verhogen (.uProc_semAdd k) => if S.IsProcess k then .waking k else .awake
  | _ => .awake

def progPhase (S : Setup) : Code Unit → Phase Word
  | .call o _ => o.phase S
  | .ret _ => .awake

def stackPhase (S : Setup) : List (Frame Sem Op Op.Answer) → Phase Word
  | f :: _ => progPhase S f.prog
  | [] => .awake

/-- The register of the sleepers and their semaphores. -/
def bedsOf (S : Setup) (c : UserPool β) : Beds Word where
  listed := c.shared.avsl.waiters.map Prod.snd
  value k := c.value (.uProc_semAdd k)
  queue k := c.queue (.uProc_semAdd k)
  phase t := stackPhase S (c.stack t)

/-- The rest of an activation treats the sleepers as it should, with the arguments
that are in the old area now. -/
abbrev TendsIn (S : Setup) (c : UserPool β) (t : Word) (g : Phase Word) (p : Code Unit) : Prop :=
  Tends S t ((c.shared.old t).get (.s_reg s_a0)) ((c.shared.old t).get (.s_reg s_a1)) g p

/-- Only the innermost activation of a process is about to sleep or to wake. -/
def StackTends (S : Setup) (ID a0 a1 : Word) : List (Frame Sem Op Op.Answer) → Prop
  | f :: fs => (∃ g, Tends S ID a0 a1 g f.prog) ∧ ∀ f' ∈ fs, Tends S ID a0 a1 .awake f'.prog
  | [] => True

/-- What holds in every state of a run in which nobody sleeps with DELAY. -/
structure Tended (S : Setup) (c : UserPool β) : Prop where
  stack : ∀ ID, StackTends S ID ((c.shared.old ID).get (.s_reg s_a0))
    ((c.shared.old ID).get (.s_reg s_a1)) (c.stack ID)
  avsl : ∃ l avail, c.shared.avsl.Inv l avail
  adl : c.shared.adl.Lists [] []
  entries : ∀ e ∈ c.shared.avsl.waiters, S.IsProcess e.2 ∧
    (c.shared.old e.2).get (.s_reg s_a0) = PSEMVIRT ∧ e.1 = (c.shared.old e.2).get (.s_reg s_a1)
  made : (bedsOf S c).Made

variable {S : Setup} {c c' : UserPool β} {ID t a0 a1 : Word} {g : Phase Word} {o : Op}
  {k : o.Answer → Code Unit} {held : List Sem} {fs : List (Frame Sem Op Op.Answer)}

/-- Code that treats nobody in particular does not begin with a P or V on a private
semaphore. -/
theorem Tends.phase {p : Code Unit} (h : Tends S ID a0 a1 .awake p) : progPhase S p = .awake := by
  cases p with
  | ret _ => rfl
  | call o k =>
    have hpre := h.1
    cases o with
    | passeren s =>
      cases s with
      | uProc_semAdd k => exact absurd hpre nofun
      | _ => rfl
    | verhogen s =>
      cases s with
      | uProc_semAdd k => exact absurd hpre nofun
      | _ => rfl
    | _ => rfl

theorem Tends.phase_registered {p : Code Unit} (h : Tends S ID a0 a1 .registered p) :
    progPhase S p = .registered := by
  cases p with
  | ret _ => exact absurd h nofun
  | call o k =>
    obtain rfl : o = .passeren (.uProc_semAdd ID) := h.1
    rfl

theorem Tends.phase_waking {p : Code Unit} {x : Word} (h : Tends S ID a0 a1 (.waking x) p) :
    progPhase S p = if S.IsProcess x then .waking x else .awake := by
  cases p with
  | ret _ => exact absurd h nofun
  | call o k =>
    obtain rfl : o = .verhogen (.uProc_semAdd x) := h.1
    rfl

/-- What the next operation can be. -/
theorem Tends.cases (h : Tends S ID a0 a1 g (.call o k)) :
    (o = .passeren (.uProc_semAdd ID) ∧ ∀ r, Tends S ID a0 a1 .awake (k r)) ∨
    (∃ p, o = .verhogen (.uProc_semAdd p) ∧ ∀ r, Tends S ID a0 a1 .awake (k r)) ∨
    Tends S ID a0 a1 .awake (.call o k) := by
  cases g with
  | awake => exact .inr (.inr h)
  | registered => exact .inl ⟨h.1, fun r => h.2 r _ rfl⟩
  | waking p => exact .inr (.inl ⟨p, h.1, fun r => h.2 r _ rfl⟩)

theorem StackTends.outer (h : StackTends S ID a0 a1 (⟨.ret (), held⟩ :: fs)) :
    StackTends S ID a0 a1 fs ∧ stackPhase S fs = .awake := by
  obtain ⟨-, hfs⟩ := h
  cases fs with
  | nil => exact ⟨trivial, rfl⟩
  | cons f fs =>
    have hf := hfs f List.mem_cons_self
    exact ⟨⟨⟨_, hf⟩, fun f' hf' => hfs f' (List.mem_cons_of_mem _ hf')⟩, hf.phase⟩

/-- Whatever a process enters, no activation of it is about to sleep or to wake. -/
theorem StackTends.of_enters {entry : UserEntry} {s s' : Phase3 β} (h : StackTends S ID a0 a1 fs)
    (henter : UserEnters S ID entry fs s s') :
    (∀ f ∈ fs, Tends S ID a0 a1 .awake f.prog) ∧ stackPhase S fs = .awake := by
  have hempty : fs = [] → (∀ f ∈ fs, Tends S ID a0 a1 .awake f.prog) ∧ stackPhase S fs = .awake := by
    rintro rfl
    exact ⟨fun _ hf => absurd hf List.not_mem_nil, rfl⟩
  have htrap : CanTrap S s ID fs →
      (∀ f ∈ fs, Tends S ID a0 a1 .awake f.prog) ∧ stackPhase S fs = .awake := by
    rintro (huser | ⟨o, k, held, fs, rfl, haccess⟩)
    · exact hempty huser.2.1
    · obtain ⟨⟨g, htop⟩, hfs⟩ := h
      have htop' : Tends S ID a0 a1 .awake (.call o k) := by
        rcases htop.cases with ⟨rfl, -⟩ | ⟨p, rfl, -⟩ | htop'
        · exact absurd haccess nofun
        · exact absurd haccess nofun
        · exact htop'
      exact ⟨List.forall_mem_cons.mpr ⟨htop', hfs⟩, htop'.phase⟩
  cases henter with
  | daemon _ => exact hempty rfl
  | boot _ _ => exact hempty rfl
  | call huser => exact hempty huser.2.1
  | tlb hcan => exact htrap hcan
  | program hcan => exact htrap hcan
  | store huser _ _ => exact hempty huser.2.1

/-- What a process enters treats the sleepers as it should: a call with the arguments
that it leaves in the old area. -/
theorem UserEnters.tends {entry : UserEntry} {s s' : Phase3 β} (henter : UserEnters S t entry fs s s')
    (hcond : Undelayed S c (.enter t entry) c') :
    Tends S t ((s'.old t).get (.s_reg s_a0)) ((s'.old t).get (.s_reg s_a1)) .awake
      (userProgram S t entry) := by
  cases henter with
  | daemon _ => exact tends_delayDaemon
  | boot _ _ => exact tends_uProcInit
  | @call n st _ _ huser =>
    simp only [Function.update_self]
    exact tends_vmSysHandler huser.1 hcond
  | tlb _ => exact tends_vmMemHandler
  | program _ => exact meets_meIRL_awake
  | store _ _ _ => rfl

/-- Of the old areas only that of a caller changes, which has been executing its own
instructions. -/
theorem UserEnters.shared {entry : UserEntry} {s s' : Phase3 β}
    (henter : UserEnters S t entry fs s s') :
    (s'.old = s.old ∨ fs = [] ∧ ∀ p, p ≠ t → s'.old p = s.old p) ∧
      s'.avsl = s.avsl ∧ s'.adl = s.adl := by
  cases henter with
  | call huser => exact ⟨.inr ⟨huser.2.1, fun p hp => Function.update_of_ne hp _ _⟩, rfl, rfl⟩
  | _ => exact ⟨.inl rfl, rfl, rfl⟩

/-- A step that concerns no sleeper. -/
theorem Tended.quietly (h : Tended S c) (hstack : ∀ p, p ≠ t → c'.stack p = c.stack p)
    (hnew : StackTends S t ((c.shared.old t).get (.s_reg s_a0)) ((c.shared.old t).get (.s_reg s_a1))
      (c'.stack t))
    (hphase : stackPhase S (c'.stack t) = stackPhase S (c.stack t))
    (hvalue : ∀ k, c'.value (.uProc_semAdd k) = c.value (.uProc_semAdd k))
    (hqueue : ∀ k, c'.queue (.uProc_semAdd k) = c.queue (.uProc_semAdd k))
    (hold : ∀ p i, i ≠ s_v0 → (c'.shared.old p).get (.s_reg i) = (c.shared.old p).get (.s_reg i))
    (havsl : c'.shared.avsl = c.shared.avsl) (hadl : c'.shared.adl = c.shared.adl) : Tended S c' := by
  have hbeds : bedsOf S c' = bedsOf S c := by
    have hphases : (fun p => stackPhase S (c'.stack p)) = fun p => stackPhase S (c.stack p) := by
      funext p
      by_cases hp : p = t
      · rw [hp, hphase]
      · rw [hstack p hp]
    simp only [bedsOf, havsl, hvalue, hqueue, hphases]
  refine ⟨fun p => ?_, havsl ▸ h.avsl, hadl ▸ h.adl, fun e he => ?_, hbeds ▸ h.made⟩
  · rw [hold p _ (by decide), hold p _ (by decide)]
    by_cases hp : p = t
    · exact hp ▸ hnew
    · exact hstack p hp ▸ h.stack p
  · rw [havsl] at he
    rw [hold _ _ (by decide), hold _ _ (by decide)]
    exact h.entries e he

/-- A process that calls has not been registered. -/
theorem Tended.not_listed (h : Tended S c) (hrun : c.Running t)
    (hphase : stackPhase S (c.stack t) = .awake) :
    ∀ e ∈ c.shared.avsl.waiters, e.2 ≠ t := by
  rintro e he rfl
  have hup := (h.made.bed e.2).up_of_awake (by simp [bedsOf, hphase]) fun hin => hrun.ready ⟨_, hin⟩
  exact hup.1 (List.mem_map_of_mem he)

theorem Tended.enter {entry : UserEntry} {s' : Phase3 β} (h : Tended S c) (hrun : c.Running t)
    (henter : UserEnters S t entry (c.stack t) c.shared s')
    (hcond : Undelayed S c (.enter t entry) c') :
    Tended S { c.setStack t (⟨userProgram S t entry, []⟩ :: c.stack t) with shared := s' } := by
  obtain ⟨houter, hawake⟩ := (h.stack t).of_enters henter
  obtain ⟨hold, havsl, hadl⟩ := henter.shared
  have hcode := henter.tends hcond
  have hbeds : bedsOf S { c.setStack t (⟨userProgram S t entry, []⟩ :: c.stack t) with shared := s' } =
      bedsOf S c := by
    have hphases : (fun p => stackPhase S
        ((c.setStack t (⟨userProgram S t entry, []⟩ :: c.stack t)).stack p)) =
        fun p => stackPhase S (c.stack p) := by
      funext p
      by_cases hp : p = t
      · subst hp
        simp only [Pool.setStack, Function.update_self, hawake]
        exact hcode.phase
      · simp [Pool.setStack, hp]
    simp only [bedsOf, havsl, hphases]
    rfl
  have hothers : ∀ p, p ≠ t → s'.old p = c.shared.old p := by
    rintro p hp
    rcases hold with hold | ⟨-, hold⟩
    · rw [hold]
    · exact hold p hp
  refine ⟨fun p => ?_, havsl ▸ h.avsl, hadl ▸ h.adl, fun e he => ?_, hbeds ▸ h.made⟩
  · by_cases hp : p = t
    · subst hp
      simp only [Pool.setStack, Function.update_self]
      refine ⟨⟨_, hcode⟩, ?_⟩
      rcases hold with hold | ⟨hempty, -⟩
      · rwa [hold]
      · rw [hempty]
        exact fun _ hf => absurd hf List.not_mem_nil
    · simpa [Pool.setStack, hp, hothers p hp] using h.stack p
  · dsimp only at he ⊢
    rw [havsl] at he
    rw [hothers e.2 (h.not_listed hrun hawake e he)]
    exact h.entries e he

theorem Tended.leave (h : Tended S c) (hstack : c.stack t = ⟨.ret (), held⟩ :: fs) :
    Tended S (c.setStack t fs) := by
  have hold := h.stack t
  rw [hstack] at hold
  obtain ⟨hfs, hphase⟩ := hold.outer
  have htop : (c.setStack t fs).stack t = fs := by simp [Pool.setStack]
  refine h.quietly (fun p hp => by simp [Pool.setStack, hp]) (htop ▸ hfs) ?_ (fun _ => rfl)
    (fun _ => rfl) (fun _ _ _ => rfl) rfl rfl
  rw [htop, hphase, hstack]
  rfl

/-- A process that ends is in the middle of nothing. -/
theorem Tended.exit (h : Tended S c) (hstack : c.stack t = ⟨.call o k, held⟩ :: fs)
    (hkind : opKind S o = .exit) :
    Tended S { c.setStack t [] with dead := Function.update c.dead t true } := by
  have htop : (c.setStack t []).stack t = [] := by simp [Pool.setStack]
  refine h.quietly (t := t) (fun p hp => by simp [Pool.setStack, hp]) ?_ ?_ (fun _ => rfl)
    (fun _ => rfl) (fun _ _ _ => rfl) rfl rfl
  · dsimp only
    rw [htop]
    trivial
  · dsimp only
    rw [htop, hstack]
    have hphase : o.phase S = .awake := by
      cases o with
      | passeren s => exact absurd hkind (by simp [opKind])
      | verhogen s =>
        cases s with
        | uProc_semAdd p =>
          by_cases hp : S.IsProcess p
          · exact absurd ((if_pos hp).symm.trans hkind) (by simp)
          · exact absurd ((if_neg hp).symm.trans hkind) (by simp)
        | _ => exact absurd hkind (by simp [opKind])
      | _ => rfl
    exact hphase.symm

/-- An operation that treats nobody. -/
theorem Tended.perform {r : o.Answer} {held' : List Sem} (h : Tended S c)
    (hstack : c.stack t = ⟨.call o k, held⟩ :: fs)
    (hnow : TendsIn S c t .awake (.call o k))
    (hnext : TendsIn S c t .awake (k r))
    (hstack' : c'.stack = Function.update c.stack t (⟨k r, held'⟩ :: fs))
    (hvalue : ∀ k, c'.value (.uProc_semAdd k) = c.value (.uProc_semAdd k))
    (hqueue : ∀ k, c'.queue (.uProc_semAdd k) = c.queue (.uProc_semAdd k))
    (hold : ∀ p i, i ≠ s_v0 → (c'.shared.old p).get (.s_reg i) = (c.shared.old p).get (.s_reg i))
    (havsl : c'.shared.avsl = c.shared.avsl) (hadl : c'.shared.adl = c.shared.adl) : Tended S c' := by
  have hstacks := h.stack t
  rw [hstack] at hstacks
  have htop : c'.stack t = ⟨k r, held'⟩ :: fs := by simp [hstack']
  refine h.quietly (t := t) (fun p hp => by simp [hstack', hp]) ?_ ?_ hvalue hqueue hold havsl hadl
  · rw [htop]
    exact ⟨⟨_, hnext⟩, hstacks.2⟩
  · rw [htop, hstack]
    exact hnext.phase.trans hnow.phase.symm

theorem bedsOf_passeren : bedsOf S ((c.passeren t (.uProc_semAdd t)).setStack t fs) =
    ((bedsOf S c).passeren t).setPhase t (stackPhase S fs) := by
  have hvalue : (fun k => ((c.passeren t (.uProc_semAdd t)).setStack t fs).value (.uProc_semAdd k)) =
      ((bedsOf S c).passeren t).value := by
    funext k
    by_cases hk : k = t <;> simp [Pool.setStack, Pool.passeren, bedsOf, Beds.passeren, hk]
  have hqueue : (fun k => ((c.passeren t (.uProc_semAdd t)).setStack t fs).queue (.uProc_semAdd k)) =
      ((bedsOf S c).passeren t).queue := by
    funext k
    by_cases hneg : c.value (.uProc_semAdd t) - 1 < 0
    · have hneg' : (bedsOf S c).value t - 1 < 0 := hneg
      simp only [Pool.setStack, Pool.passeren, Beds.passeren, if_pos hneg, if_pos hneg']
      by_cases hk : k = t <;> simp [bedsOf, hk]
    · have hneg' : ¬ (bedsOf S c).value t - 1 < 0 := hneg
      simp only [Pool.setStack, Pool.passeren, Beds.passeren, if_neg hneg, if_neg hneg']
      rfl
  have hphase : (fun p => stackPhase S (((c.passeren t (.uProc_semAdd t)).setStack t fs).stack p)) =
      (((bedsOf S c).passeren t).setPhase t (stackPhase S fs)).phase := by
    funext p
    by_cases hp : p = t <;>
      simp [Pool.setStack, Pool.passeren, bedsOf, Beds.setPhase, Beds.passeren, hp]
  rw [bedsOf, hvalue, hqueue, hphase]
  rfl

theorem bedsOf_verhogen {p : Word} : bedsOf S ((c.verhogen (.uProc_semAdd p)).setStack t fs) =
    ((bedsOf S c).verhogen p).setPhase t (stackPhase S fs) := by
  have hvalue : (fun k => ((c.verhogen (.uProc_semAdd p)).setStack t fs).value (.uProc_semAdd k)) =
      ((bedsOf S c).verhogen p).value := by
    funext k
    by_cases hk : k = p <;> simp [Pool.setStack, Pool.verhogen, bedsOf, Beds.verhogen, hk]
  have hqueue : (fun k => ((c.verhogen (.uProc_semAdd p)).setStack t fs).queue (.uProc_semAdd k)) =
      ((bedsOf S c).verhogen p).queue := by
    funext k
    by_cases hle : c.value (.uProc_semAdd p) + 1 ≤ 0
    · have hle' : (bedsOf S c).value p + 1 ≤ 0 := hle
      simp only [Pool.setStack, Pool.verhogen, Beds.verhogen, if_pos hle, if_pos hle']
      by_cases hk : k = p <;> simp [bedsOf, hk]
    · have hle' : ¬ (bedsOf S c).value p + 1 ≤ 0 := hle
      simp only [Pool.setStack, Pool.verhogen, Beds.verhogen, if_neg hle, if_neg hle']
      rfl
  have hphase : (fun u => stackPhase S (((c.verhogen (.uProc_semAdd p)).setStack t fs).stack u)) =
      (((bedsOf S c).verhogen p).setPhase t (stackPhase S fs)).phase := by
    funext u
    by_cases hu : u = t <;>
      simp [Pool.setStack, Pool.verhogen, bedsOf, Beds.setPhase, Beds.verhogen, hu]
  rw [bedsOf, hvalue, hqueue, hphase]
  rfl

theorem bedsOf_setStack {s' : Phase3 β} : bedsOf S { c.setStack t fs with shared := s' } =
    { (bedsOf S c).setPhase t (stackPhase S fs) with listed := s'.avsl.waiters.map Prod.snd } := by
  have hphase : (fun p => stackPhase S ((c.setStack t fs).stack p)) =
      ((bedsOf S c).setPhase t (stackPhase S fs)).phase := by
    funext p
    by_cases hp : p = t <;> simp [Pool.setStack, bedsOf, Beds.setPhase, hp]
  rw [bedsOf, hphase]
  rfl

theorem eq_of_opKind_passeren {a : Sem} (h : opKind S o = .passeren a) : o = .passeren a := by
  cases o with
  | passeren s =>
    obtain rfl : s = a := by simpa [opKind] using h
    rfl
  | verhogen s =>
    cases s with
    | uProc_semAdd p =>
      simp only [opKind] at h
      split at h <;> exact absurd h (by simp)
    | _ => exact absurd h (by simp [opKind])
  | _ => exact absurd h (by simp [opKind])

theorem eq_of_opKind_verhogen {a : Sem} (h : opKind S o = .verhogen a) :
    o = .verhogen a ∧ ∀ p, a = .uProc_semAdd p → S.IsProcess p := by
  cases o with
  | verhogen s =>
    cases s with
    | uProc_semAdd p =>
      simp only [opKind] at h
      split at h
      · obtain rfl : Sem.uProc_semAdd p = a := by simpa using h
        refine ⟨rfl, fun q hq => ?_⟩
        obtain rfl : p = q := by simpa using hq
        assumption
      · exact absurd h (by simp)
    | _ =>
      obtain rfl := Kind.verhogen.inj h
      exact ⟨rfl, by simp⟩
  | _ => exact absurd h (by simp [opKind])

/-- A step of a process after which everything holds of the sleepers. -/
theorem Tended.next {r : o.Answer} {held' : List Sem} (h : Tended S c)
    (hstack : c.stack t = ⟨.call o k, held⟩ :: fs)
    (hnext : TendsIn S c t g (k r))
    (hstack' : c'.stack = Function.update c.stack t (⟨k r, held'⟩ :: fs))
    (hold : c'.shared.old = c.shared.old) (havsl : ∃ l avail, c'.shared.avsl.Inv l avail)
    (hadl : c'.shared.adl = c.shared.adl)
    (hentries : ∀ e ∈ c'.shared.avsl.waiters, e ∈ c.shared.avsl.waiters ∨ S.IsProcess e.2 ∧
      (c.shared.old e.2).get (.s_reg s_a0) = PSEMVIRT ∧ e.1 = (c.shared.old e.2).get (.s_reg s_a1))
    (hmade : (bedsOf S c').Made) : Tended S c' := by
  have hstacks := h.stack t
  rw [hstack] at hstacks
  refine ⟨fun p => ?_, havsl, hadl ▸ h.adl, fun e he => ?_, hmade⟩
  · rw [hold]
    by_cases hp : p = t
    · subst hp
      simp only [hstack', Function.update_self]
      exact ⟨⟨_, hnext⟩, hstacks.2⟩
    · simpa [hstack', hp] using h.stack p
  · rw [hold]
    exact (hentries e he).elim (h.entries e) id

theorem Tended.passeren {a : Sem} {r : o.Answer} {held' : List Sem} (h : Tended S c)
    (hrun : c.Running t) (hstack : c.stack t = ⟨.call o k, held⟩ :: fs)
    (hkind : opKind S o = .passeren a) :
    Tended S ((c.passeren t a).setStack t (⟨k r, held'⟩ :: fs)) := by
  obtain rfl := eq_of_opKind_passeren hkind
  have hstacks := h.stack t
  rw [hstack] at hstacks
  obtain ⟨⟨g, htends⟩, -⟩ := hstacks
  rcases htends.cases with ⟨hself, hnext⟩ | ⟨p, hother, -⟩ | hnow
  · obtain rfl : a = .uProc_semAdd t := by simpa using hself
    refine h.next hstack (hnext r) rfl rfl h.avsl rfl (fun _ he => .inl he) ?_
    rw [bedsOf_passeren, show stackPhase S (⟨k r, held'⟩ :: fs) = .awake from (hnext r).phase]
    refine h.made.step (fun p hin => hrun.ready ⟨_, hin⟩) (.sleep ?_)
    simp only [bedsOf, hstack]
    rfl
  · exact absurd hother nofun
  · have hnone : ∀ p, a ≠ .uProc_semAdd p := by
      rintro p rfl
      exact absurd hnow.1 nofun
    have hnext := hnow.2 r .awake rfl
    refine h.perform hstack hnow hnext rfl (fun p => ?_) (fun p => ?_) (fun _ _ _ => rfl) rfl rfl
    · simp [Pool.setStack, Pool.passeren, (hnone p).symm]
    · simp only [Pool.setStack, Pool.passeren]
      split <;> simp [(hnone p).symm]

theorem Tended.verhogen {a : Sem} {r : o.Answer} {held' : List Sem} (h : Tended S c)
    (hrun : c.Running t) (hstack : c.stack t = ⟨.call o k, held⟩ :: fs)
    (hkind : opKind S o = .verhogen a) :
    Tended S ((c.verhogen a).setStack t (⟨k r, held'⟩ :: fs)) := by
  obtain ⟨rfl, hprocess⟩ := eq_of_opKind_verhogen hkind
  have hstacks := h.stack t
  rw [hstack] at hstacks
  obtain ⟨⟨g, htends⟩, -⟩ := hstacks
  rcases htends.cases with ⟨hself, -⟩ | ⟨p, hother, hnext⟩ | hnow
  · exact absurd hself nofun
  · obtain rfl : a = .uProc_semAdd p := by simpa using hother
    refine h.next hstack (hnext r) rfl rfl h.avsl rfl (fun _ he => .inl he) ?_
    rw [bedsOf_verhogen, show stackPhase S (⟨k r, held'⟩ :: fs) = .awake from (hnext r).phase]
    refine h.made.step (fun p hin => hrun.ready ⟨_, hin⟩) (.wake ?_)
    simp only [bedsOf, hstack]
    exact if_pos (hprocess p rfl)
  · have hnone : ∀ p, a ≠ .uProc_semAdd p := by
      rintro p rfl
      exact absurd hnow.1 nofun
    have hnext := hnow.2 r .awake rfl
    refine h.perform hstack hnow hnext rfl (fun p => ?_) (fun p => ?_) (fun _ _ _ => rfl) rfl rfl
    · simp [Pool.setStack, Pool.verhogen, (hnone p).symm]
    · simp only [Pool.setStack, Pool.verhogen]
      split <;> simp [(hnone p).symm]

theorem Phase3.Done.keeps {s s' : Phase3 β} {d : Command} (h : s.Done d s') :
    s'.old = s.old ∧ s'.avsl = s.avsl ∧ s'.adl = s.adl := by
  cases h <;> exact ⟨rfl, rfl, rfl⟩

theorem setEntryLO_keeps {s : Phase3 β} {pte : PtePtr} {w : Word} :
    (s.setEntryLO pte w).old = s.old ∧ (s.setEntryLO pte w).avsl = s.avsl ∧
      (s.setEntryLO pte w).adl = s.adl := by
  cases pte <;> exact ⟨rfl, rfl, rfl⟩

section other

variable {r : o.Answer} {v v' : Sem → Int} {s s' : Phase3 β} (hact : Acts S t o (v, s) r (v', s'))
  (hkind : opKind S o = .other) (hcond : Undelayed S c (.perform t o) c')

include hact

/-- An operation that does not concern the sleepers leaves what is theirs as it is. -/
theorem Acts.awake (hkind : opKind S o = .other) (hcond : Undelayed S c (.perform t o) c')
    (ho : o.isAwake = true) : v' = v ∧
      (∀ p i, i ≠ s_v0 → (s'.old p).get (.s_reg i) = (s.old p).get (.s_reg i)) ∧
      s'.avsl = s.avsl ∧ s'.adl = s.adl := by
  cases hact with
  | @setOld p f w _ _ =>
    refine ⟨rfl, fun q i hi => ?_, rfl, rfl⟩
    obtain rfl : f = .s_reg s_v0 := by simpa [Op.isAwake] using ho
    by_cases hq : q = p
    · subst hq
      simp [hi]
    · simp [hq]
  | clobberWord hvars => exact absurd (hvars.symm.trans hcond) (by simp)
  | clobberByte hvars => exact absurd (hvars.symm.trans hcond) (by simp)
  | @beyond x _ _ _ _ =>
    cases x with
    | uProc_semAdd p => exact absurd ho (by simp [Op.isAwake])
    | _ => exact absurd hkind (by simp [opKind])
  | setEntryLO =>
    obtain ⟨hold, havsl, hadl⟩ := setEntryLO_keeps (β := β)
    exact ⟨rfl, fun _ _ _ => by rw [hold], havsl, hadl⟩
  | ready hdone =>
    obtain ⟨hold, havsl, hadl⟩ := hdone.keeps
    exact ⟨rfl, fun _ _ _ => by rw [hold], havsl, hadl⟩
  | vInsertBlocked _ => exact absurd ho (by simp [Op.isAwake])
  | vRemoveBlocked _ => exact absurd ho (by simp [Op.isAwake])
  | insertDelay _ => exact absurd ho (by simp [Op.isAwake])
  | removeDelay _ => exact absurd ho (by simp [Op.isAwake])
  | _ => exact ⟨rfl, fun _ _ _ => rfl, rfl, rfl⟩

/-- Of the arguments of its call a process is told what is in the old area. -/
theorem Acts.post_awake (ho : o.isAwake = true) :
    (sleepContract S t ((s.old t).get (.s_reg s_a0)) ((s.old t).get (.s_reg s_a1))).post .awake o r
      .awake := by
  cases hact with
  | getOld =>
    refine ⟨?_, rfl⟩
    rintro rfl
    exact ⟨fun hf => hf ▸ rfl, fun hf => hf ▸ rfl⟩
  | vInsertBlocked _ => exact absurd ho nofun
  | vRemoveBlocked _ => exact absurd ho nofun
  | insertDelay _ => exact absurd ho nofun
  | removeDelay _ => exact absurd ho nofun
  | headDelayTime _ => exact absurd ho nofun
  | _ => rfl

end other

/-- Only user processes are in the list, each once: there is always a free node. -/
theorem Tended.room (h : Tended S c) : c.shared.avsl.waiters.length < MAXPROC + 1 := by
  have hnodup : (c.shared.avsl.waiters.map fun e => e.2.toNat).Nodup := by
    have hmap := h.made.nodup.map (f := BitVec.toNat) fun _ _ => BitVec.eq_of_toNat_eq
    rwa [bedsOf, List.map_map] at hmap
  have hsub : (c.shared.avsl.waiters.map fun e => e.2.toNat) ⊆ List.range' 1 S.MAXUSERPROC := by
    intro x hx
    obtain ⟨e, he, rfl⟩ := List.mem_map.mp hx
    have hle := (h.entries e he).1.le
    rw [List.mem_range'_1]
    omega
  have hlength := (List.subperm_of_subset hnodup hsub).length_le
  rw [List.length_map, List.length_range'] at hlength
  have hmax := S.processes
  omega

section lists

variable {r : o.Answer} {l : Avsl Vid}

/-- A process is registered. -/
theorem Tended.register {a p : Word} {k : Bool → Code Unit} {r : Bool} (h : Tended S c)
    (hrun : c.Running t)
    (hstack : c.stack t = ⟨.call (.vInsertBlocked a p) k, held⟩ :: fs)
    (hnow : TendsIn S c t .awake (.call (.vInsertBlocked a p) k))
    (hact : (vInsertBlocked a p).run c.shared.avsl = .ok r l) :
    Tended S { c.setStack t (⟨k r, held⟩ :: fs) with shared := { c.shared with avsl := l } } := by
  obtain ⟨hcall, rfl, rfl, hprocess⟩ := hnow.1
  have hnext := hnow.2 r .registered rfl
  obtain ⟨_, _, hinv⟩ := h.avsl
  obtain ⟨l', nodes', avail', hins, hinv', hwaiters⟩ := hinv.insert
    ((c.shared.old p).get (.s_reg s_a1)) p
  obtain ⟨-, rfl⟩ : r = _ ∧ l = l' := by simpa using hact.symm.trans hins
  rw [if_pos h.room] at hwaiters
  have hphase : (bedsOf S c).phase p = .awake := by
    simp only [bedsOf, hstack]
    exact hnow.phase
  refine h.next (o := .vInsertBlocked _ p) hstack hnext rfl rfl ⟨_, _, hinv'⟩ rfl (fun e he => ?_) ?_
  · dsimp only at he
    rw [hwaiters, List.mem_append, List.mem_singleton] at he
    rcases he with he | rfl
    · exact .inl he
    · exact .inr ⟨hprocess, hcall, rfl⟩
  · have hnew : stackPhase S (⟨k r, held⟩ :: fs) = .registered := Tends.phase_registered hnext
    rw [bedsOf_setStack, hnew]
    dsimp only
    rw [hwaiters, List.map_append]
    exact h.made.step (fun q hin => hrun.ready ⟨_, hin⟩) (.register hphase)

/-- A process is taken out of the register, or there is none for the semaphore. -/
theorem Tended.take {a r : Word} {k : Word → Code Unit} (h : Tended S c) (hrun : c.Running t)
    (hstack : c.stack t = ⟨.call (.vRemoveBlocked a) k, held⟩ :: fs)
    (hnow : TendsIn S c t .awake (.call (.vRemoveBlocked a) k))
    (hact : Returns (fun n => vRemoveBlocked n a) c.shared.avsl r l) :
    Tended S { c.setStack t (⟨k r, held⟩ :: fs) with shared := { c.shared with avsl := l } } := by
  obtain ⟨_, _, hinv⟩ := h.avsl
  obtain ⟨answer, l', nodes', avail', hret, hinv', hanswer⟩ := hinv.removes a
  obtain ⟨rfl, rfl⟩ := hact.unique hret
  have hphase : (bedsOf S c).phase t = .awake := by
    simp only [bedsOf, hstack]
    exact hnow.phase
  rcases hanswer with ⟨e, rfl, hperm⟩ | ⟨rfl, rfl⟩
  · have hprocess := (h.entries e (hperm.mem_iff.mp List.mem_cons_self)).1
    have hnext := hnow.2 e.2 (.waking e.2) ⟨hprocess.ne_neg_one, rfl⟩
    refine h.next (o := .vRemoveBlocked a) hstack hnext rfl rfl ⟨_, _, hinv'⟩ rfl (fun x hx => ?_) ?_
    · exact .inl (hperm.mem_iff.mp (List.mem_cons_of_mem e hx))
    · have hnew : stackPhase S (⟨k e.2, held⟩ :: fs) = .waking e.2 :=
        (Tends.phase_waking hnext).trans (if_pos hprocess)
      rw [bedsOf_setStack, hnew]
      exact h.made.step (fun q hin => hrun.ready ⟨_, hin⟩) (.take hphase (hperm.map Prod.snd))
  · have hnext := hnow.2 (0 : Word) (.waking 0) ⟨show (0 : Word) ≠ FAILURE by decide, rfl⟩
    refine h.next (o := .vRemoveBlocked a) hstack hnext rfl rfl h.avsl rfl (fun x hx => .inl hx) ?_
    have hzero : ¬ S.IsProcess 0 := fun hzero => absurd hzero.1 (by decide)
    have hnew : stackPhase S (⟨k (0 : Word), held⟩ :: fs) = (bedsOf S c).phase t :=
      ((Tends.phase_waking hnext).trans (if_neg hzero)).trans hphase.symm
    rw [bedsOf_setStack, hnew, Beds.setPhase_self]
    exact h.made

end lists

theorem Tended.other {r : o.Answer} {v' : Sem → Int} {s' : Phase3 β} (h : Tended S c)
    (hrun : c.Running t) (hstack : c.stack t = ⟨.call o k, held⟩ :: fs) (hkind : opKind S o = .other)
    (hact : Acts S t o (c.value, c.shared) r (v', s')) (hcond : Undelayed S c (.perform t o) c') :
    Tended S { c.setStack t (⟨k r, held⟩ :: fs) with value := v', shared := s' } := by
  have hstacks := h.stack t
  rw [hstack] at hstacks
  obtain ⟨⟨g, htends⟩, -⟩ := hstacks
  have hnow : TendsIn S c t .awake (.call o k) := by
    rcases htends.cases with ⟨rfl, -⟩ | ⟨p, rfl, -⟩ | hnow
    · exact absurd hkind nofun
    · exact absurd ((if_pos hcond).symm.trans hkind) nofun
    · exact hnow
  cases ho : o.isAwake with
  | true =>
    obtain ⟨rfl, hold, havsl, hadl⟩ := hact.awake hkind hcond ho
    have hnext := hnow.2 r .awake (hact.post_awake ho)
    exact h.perform hstack hnow hnext rfl (fun _ => rfl) (fun _ => rfl) hold havsl hadl
  | false =>
    have hpre := hnow.1
    cases o with
    | vInsertBlocked a p =>
      cases hact with
      | vInsertBlocked hins => exact h.register hrun hstack hnow hins
    | vRemoveBlocked a =>
      cases hact with
      | vRemoveBlocked hret => exact h.take hrun hstack hnow hret
    | headDelayTime =>
      cases hact with
      | headDelayTime hhead =>
        obtain ⟨rfl, -⟩ := EStateM.Result.ok.inj (hhead.symm.trans (run_headDelayTime_empty h.adl))
        have hnext := hnow.2 FAILURE .awake ⟨rfl, rfl⟩
        exact h.perform hstack hnow hnext rfl (fun _ => rfl) (fun _ => rfl) (fun _ _ _ => rfl) rfl rfl
    | _ => exact absurd (ho.symm.trans hpre) nofun

/-- One step of a process or of the daemon. -/
theorem Tended.step {e : Happening Word UserEntry Op} (h : Tended S c)
    (hstep : (userThreads S).Step c e c') (hcond : Undelayed S c e c') : Tended S c' := by
  cases hstep with
  | enter hrun henter => exact h.enter hrun henter hcond
  | leave _ hstack => exact h.leave hstack
  | passeren hrun hstack hkind => exact h.passeren hrun hstack hkind
  | verhogen hrun hstack hkind => exact h.verhogen hrun hstack hkind
  | exit _ hstack hkind => exact h.exit hstack hkind
  | halt _ _ _ => exact ⟨h.stack, h.avsl, h.adl, h.entries, h.made⟩
  | other hrun hstack hkind hact => exact h.other hrun hstack hkind hact hcond

end Kaya
