import Kaya.Exec.Solo
import Kaya.Phase3.Mutexes
import Kaya.Phase3.Script

open Exec

namespace Kaya

/-- What the user processes are doing, and the semaphores of phase 3. -/
abbrev UserPool (β : Type) : Type := Pool Word Sem Op Op.Answer (Phase3 β)

variable {β : Type} {S : Setup}

/-- No process has run yet: all mutexes are free. -/
structure AtRest (c : UserPool β) : Prop where
  stack : ∀ ID, c.stack ID = []
  value : ∀ s : Sem, s.isMutex = true → c.value s = 1
  queue : ∀ s, c.queue s = []
  dead : ∀ ID, c.dead ID = false
  halted : c.halted = false

/-- The user processes in any order. -/
def userSystem (β : Type) (S : Setup) : System (UserPool β) (Happening Word UserEntry Op) :=
  (userThreads S).system AtRest

/-- A process that has taken a mutex is not ended by a trap, and no pointer that a
process passes and no V on a private semaphore leads to kernel memory. -/
def Orderly (S : Setup) (c : UserPool β) (e : Happening Word UserEntry Op) (_ : UserPool β) : Prop :=
  match e with
  | .enter ID (.tlb st) => MissingPage st ∨ taken (c.stack ID) = []
  | .enter ID .program => taken (c.stack ID) = []
  | .perform _ (.storeWord a _) => S.vars a = false
  | .perform _ (.storeByte a _) => S.vars a = false
  | .perform _ (.verhogen (.uProc_semAdd ID)) => S.IsProcess ID
  | _ => True

/-- Whether a step is orderly. -/
def isOrderly (S : Setup) (c : UserPool β) : Happening Word UserEntry Op → Bool
  | .enter ID (.tlb st) => decide (MissingPage st ∨ taken (c.stack ID) = [])
  | .enter ID .program => decide (taken (c.stack ID) = [])
  | .perform _ (.storeWord a _) => !S.vars a
  | .perform _ (.storeByte a _) => !S.vars a
  | .perform _ (.verhogen (.uProc_semAdd ID)) => decide (S.IsProcess ID)
  | _ => true

theorem isOrderly_iff {c c' : UserPool β} {e : Happening Word UserEntry Op} :
    isOrderly S c e = true ↔ Orderly S c e c' := by
  cases e with
  | enter ID entry => cases entry <;> simp [isOrderly, Orderly]
  | leave ID => simp [isOrderly, Orderly]
  | perform ID o =>
    cases o with
    | verhogen s => cases s <;> simp [isOrderly, Orderly]
    | _ => simp [isOrderly, Orderly]

instance (c : UserPool β) (e : Happening Word UserEntry Op) (c' : UserPool β) :
    Decidable (Orderly S c e c') :=
  decidable_of_iff (isOrderly S c e = true) isOrderly_iff

/-- The mutexes in one state: one process at a time has one, a handler returns and
a process ends without any, and one that nobody has or waits for is free. -/
structure MutexesKept (c : UserPool β) : Prop where
  unique : ∀ s : Sem, s.isMutex = true → ∀ ID ID', c.Holds ID s → c.Holds ID' s → ID = ID'
  returned : ∀ ID held fs, c.stack ID = ⟨.ret (), held⟩ :: fs → held = []
  ended : ∀ ID k held fs, c.stack ID = ⟨.call .terminateProcess k, held⟩ :: fs →
    taken (c.stack ID) = []
  free : ∀ s : Sem, s.isMutex = true →
    (∀ ID, c.dead ID = false → ¬ c.Holds ID s ∧ ID ∉ c.queue s) → c.value s = 1

variable {c c' : UserPool β} {ID : Word} {e : Happening Word UserEntry Op} {o : Op}

theorem AtRest.locked (h : AtRest c) : (userThreads S).Locked steady c := by
  refine ⟨fun ID => ?_, fun ID => ?_, fun s hs => ?_, fun ID s hs => ?_, fun ID _ => h.stack ID⟩
  · rw [h.stack]
    trivial
  · rw [h.stack]
    exact List.nodup_nil
  · refine .free (h.value s hs) (h.queue s) fun ID => ?_
    rw [h.stack]
    exact List.not_mem_nil
  · rw [h.stack] at hs
    exact absurd hs List.not_mem_nil

/-- A trap finds `swap` and the backing store given back. -/
theorem CanTrap.calm (h : (userThreads S).Locked steady c) (htrap : CanTrap S c.shared ID (c.stack ID)) :
    .swap ∉ taken (c.stack ID) ∧ .mutexArray DISK0 ∉ taken (c.stack ID) := by
  rcases htrap with ⟨-, hempty, -⟩ | ⟨o, k, held, fs, hstack, haccess⟩
  · rw [hempty]
    exact ⟨List.not_mem_nil, List.not_mem_nil⟩
  · refine (h.during hstack ?_).1 haccess
    cases o <;> first | rfl | exact absurd haccess nofun

/-- A mutex that is neither `swap` nor that of the backing store is below both. -/
theorem lockRank_eq_zero {s : Sem} (hswap : s ≠ .swap) (hdisk : s ≠ .mutexArray DISK0) :
    lockRank s = 0 := by
  cases s with
  | swap => exact absurd rfl hswap
  | mutexArray d => exact if_neg fun hd => hdisk (by rw [hd])
  | _ => rfl

/-- What a process enters is code that keeps the mutexes. -/
theorem UserEnters.keeps {entry : UserEntry} {s' : Phase3 β}
    (h : (userThreads S).Locked steady c) (henter : UserEnters S ID entry (c.stack ID) c.shared s')
    (horderly : Orderly S c (.enter ID entry) c') :
    Keeps β S (taken (c.stack ID)) [] (userProgram S ID entry) := by
  cases entry with
  | daemon n =>
    have hempty : c.stack ID = [] := by
      generalize c.stack ID = fs at henter
      cases henter
      rfl
    rw [hempty]
    exact keeps_delayDaemon
  | boot n =>
    have hempty : c.stack ID = [] ∧ S.IsProcess ID := by
      generalize c.stack ID = fs at henter
      cases henter with
      | boot hID _ => exact ⟨rfl, hID⟩
    rw [hempty.1]
    exact keeps_uProcInit hempty.2
  | call n st =>
    cases henter with
    | call huser =>
      rw [huser.2.1]
      exact keeps_vmSysHandler huser.1
  | tlb st =>
    cases henter with
    | tlb htrap =>
      obtain ⟨hswap, hdisk⟩ := htrap.calm h
      refine keeps_vmMemHandler (fun b hb => lockRank_eq_zero ?_ ?_) fun hother =>
        horderly.resolve_left hother
      · rintro rfl
        exact hswap hb
      · rintro rfl
        exact hdisk hb
  | program =>
    have hnone : taken (c.stack ID) = [] := horderly
    rw [hnone]
    exact meets_meIRL
  | store a => exact keeps_pure

/-- No operation but P and V changes a semaphore. -/
theorem Acts.value_eq {s s' : Phase3 β} {r : o.Answer} {v v' : Sem → Int}
    (h : Acts S ID o (v, s) r (v', s')) (hkind : opKind S o = .other)
    (horderly : Orderly S c (.perform ID o) c') : v' = v := by
  cases h with
  | clobberWord hvars => exact absurd (hvars.symm.trans horderly) nofun
  | clobberByte hvars => exact absurd (hvars.symm.trans horderly) nofun
  | @beyond x _ _ _ _ =>
    cases x with
    | uProc_semAdd p => exact absurd ((if_pos horderly).symm.trans hkind) nofun
    | _ => exact absurd hkind nofun
  | _ => rfl

theorem allowed_of_orderly (h : (userThreads S).Locked steady c) (hstep : (userThreads S).Step c e c')
    (horderly : Orderly S c e c') : (userThreads S).Allowed steady c e c' := by
  cases hstep with
  | enter _ henter => exact Threads.locks_of_orders (UserEnters.keeps h henter horderly)
  | leave _ _ => trivial
  | passeren _ _ hkind => exact fun hother => absurd (hkind.symm.trans hother) nofun
  | verhogen _ _ hkind => exact fun hother => absurd (hkind.symm.trans hother) nofun
  | exit _ _ hkind => exact fun hother => absurd (hkind.symm.trans hother) nofun
  | halt _ _ hkind => exact fun hother => absurd (hkind.symm.trans hother) nofun
  | other _ _ hkind hact =>
    intro _ s _
    exact congrFun (Acts.value_eq hact hkind horderly) s

theorem locked_of_run (h : ((userSystem β S).restrict (Orderly S)).Reachable c) :
    (userThreads S).Locked steady c := by
  refine h.invariant (fun c hinit => AtRest.locked hinit) fun c e c' hlocked hstep => ?_
  exact hlocked.step hstep.1 (allowed_of_orderly hlocked hstep.1 hstep.2)

/-- In an orderly run the mutexes of phase 3 are kept. -/
theorem mutexes_of_run (h : ((userSystem β S).restrict (Orderly S)).Reachable c) : MutexesKept c := by
  have hlocked := locked_of_run h
  refine ⟨fun s hs ID ID' => ?_, fun ID held fs => ?_, fun ID k held fs hstack => ?_, fun s hs => ?_⟩
  · exact hlocked.holds_unique hs
  · exact hlocked.returned
  · exact hlocked.ended hstack rfl
  · exact hlocked.value_eq hs

/-- All semaphores are 1 and the first process has been booted. -/
def restingPool : UserPool Unit where
  value _ := 1
  queue _ := []
  stack _ := []
  dead _ := false
  halted := false
  shared := { Phase3.blank () with started := fun ID => ID = 1 }

theorem restingPool_atRest : AtRest restingPool :=
  ⟨fun _ => rfl, fun _ _ => rfl, fun _ => rfl, fun _ => rfl, rfl⟩

/-- Two processes have been booted. -/
def bootedPool : UserPool Unit :=
  { restingPool with shared := { Phase3.blank () with started := fun _ => true } }

/-- Runs of two processes, in which every step is orderly. -/
abbrev orderlyScript : Script (UserScene Unit) (Happening Word UserEntry Op) UserCue :=
  (userScript Unit .small).restrict fun c e c' => Orderly .small c.pool e c'.pool

theorem orderlyScript_follows : orderlyScript.Follows
    (((userSystem Unit .small).restrict (Orderly .small)).comap Scene.pool) :=
  (Scene.script_follows AtRest).restrict

def bootedScene : UserScene Unit := .start bootedPool fun _ => rfl

theorem bootedPool_atRest : AtRest bootedPool :=
  ⟨fun _ => rfl, fun _ _ => rfl, fun _ => rfl, fun _ => rfl, rfl⟩

def orderlyPlay (l : List UserCue) : UserPool Unit := (orderlyScript.play bootedScene l).pool

/-- The steps, each with the state it leads to. -/
def orderlySteps (l : List UserCue) : List (Happening Word UserEntry Op × UserPool Unit) :=
  (orderlyScript.events bootedScene l).map fun x => (x.1, x.2.pool)

theorem orderlyPlay_path {l : List UserCue} (h : orderlyScript.plays bootedScene l = true) :
    ((userSystem Unit .small).restrict (Orderly .small)).Path bootedPool (orderlySteps l)
      (orderlyPlay l) :=
  (orderlyScript_follows.path h).of_comap

theorem orderlyPlay_reachable {l : List UserCue} (h : orderlyScript.plays bootedScene l = true) :
    ((userSystem Unit .small).restrict (Orderly .small)).Reachable (orderlyPlay l) :=
  .path (.init bootedPool_atRest) (orderlyPlay_path h)

/-- Both processes fault on their first page, and the second one waits for the pager. -/
def contendedCues : List UserCue :=
  [.enter 1 (.tlb firstFault), .perform 1 0, .enter 2 (.tlb firstFault), .perform 2 0]

/-- The first fault is served, up to the V that wakes the second process. -/
def handedCues : List UserCue :=
  contendedCues ++ onwards 1 10

theorem mutexes_of_run_small :
    (orderlyPlay contendedCues).Holds 1 .swap ∧ (orderlyPlay contendedCues).queue .swap = [2] ∧
    MutexesKept (orderlyPlay contendedCues) ∧
    (orderlyPlay handedCues).Holds 2 .swap ∧ (orderlyPlay handedCues).queue .swap = [] ∧
    MutexesKept (orderlyPlay handedCues) := by
  have hcontended := orderlyPlay_reachable (l := contendedCues) (by decide +kernel)
  have hhanded := orderlyPlay_reachable (l := handedCues) (by decide +kernel)
  exact ⟨by decide +kernel, by decide +kernel, mutexes_of_run hcontended, by decide +kernel,
    by decide +kernel, mutexes_of_run hhanded⟩

/-- WRITETERMINAL for one character in a page that is in no page table. -/
def terminalCall : State :=
  { State.zero with s_reg := fun i =>
      if i = s_a0 then WRITETERMINAL else if i = s_a1 then 0x80020000
      else if i = s_a2 then 1 else 0 }

/-- A TLB trap for a page without an entry in its page table. -/
def noEntryTrap : State := { State.zero with s_cause := 14 <<< 2 }

theorem mutexes_not_always :
    ¬ ∀ (β : Type) (S : Setup) (c : UserPool β), (userSystem β S).Reachable c → MutexesKept c := by
  intro hall
  have h0 := Threads.Solo.start (S := userThreads (β := Unit) .small) (t := 1)
    restingPool_atRest (fun _ => rfl) (fun _ => rfl) (fun _ => rfl) rfl
  have huser : InUserMode .small restingPool.shared 1 [] := ⟨by decide, rfl, by decide⟩
  have h1 := h0.enter (e := UserEntry.call 0 terminalCall) (.call huser)
  have h2 := h1.other _ rfl .getOld
  have h3 := h2.other _ rfl .getOld
  have h4 := h3.other _ rfl .getOld
  have h5 := h4.other _ rfl .getOld
  -- the mutex of the transmitter, and the first character
  have h6 := h5.passeren () (a := .mutexArray 40) rfl (by decide)
  have h7 := h6.enter (e := UserEntry.tlb noEntryTrap)
    (.tlb (.inr ⟨.loadByte 0x80020000, _, _, _, rfl, rfl⟩))
  have h8 := h7.passeren () (a := .swap) rfl (by decide)
  have h9 := h8.other _ rfl .getSwap
  have h10 := h9.verhogen () (a := .swap) rfl (by decide)
  have h11 := h10.verhogen () (a := .masterSem) rfl (by decide)
  obtain ⟨c, hreach, hstack, hvalue, hqueue⟩ := h11.exit rfl
  have hfree := (hall Unit .small c hreach).free (.mutexArray 40) rfl fun ID _ => by
    simp [Pool.Holds, hstack, hqueue]
  rw [hvalue] at hfree
  exact absurd hfree (by decide)

end Kaya
