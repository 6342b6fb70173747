import Kaya.Exec.Join
import Kaya.Phase3.Calls
import Kaya.Phase3.MutexRuns
import Kaya.Phase3.Unmoved

open Exec Prog

namespace Kaya

open Code

variable {β : Type} {S : Setup} {c c' : UserPool β} {ID : Word} {e : Happening Word UserEntry Op}

/-- `test` has created all processes, and none of them has run yet. -/
structure Created (S : Setup) (c : UserPool β) : Prop where
  test : c.stack 0 = [⟨awaitProcesses S.MAXUSERPROC, []⟩]
  stack : ∀ ID, ID ≠ 0 → c.stack ID = []
  mutex : ∀ s : Sem, s.isMutex = true → c.value s = 1
  masterSem : c.value .masterSem = 0
  queue : ∀ s, c.queue s = []
  dead : ∀ ID, c.dead ID = false
  halted : c.halted = false

/-- No pointer that a process passes and no V on a private semaphore leads to
kernel memory. -/
def Harmless (S : Setup) (c : UserPool β) (e : Happening Word UserEntry Op) (c' : UserPool β) : Prop :=
  match e with
  | .perform ID o => Orderly S c (.perform ID o) c'
  | _ => True

/-- The user processes in any order, with `test` as number 0, up to its SYS2. -/
def testSystem (β : Type) (S : Setup) : System (UserPool β) (Happening Word UserEntry Op) :=
  ((userThreads S).system (Created S)).restrict fun c e c' => Harmless S c e c' ∧ c.dead 0 = false

/-- Only a user process accesses memory through a pointer or makes a V on `masterSem`. -/
def Op.May (S : Setup) (ID : Word) (o : Op) : Prop :=
  S.IsProcess ID ∨ o.isAccess = false ∧ opKind S o ≠ .verhogen .masterSem

def Setup.processIDs (S : Setup) : Finset Word :=
  (Finset.range S.MAXUSERPROC).image fun i => BitVec.ofNat 32 (i + 1)

theorem mem_processIDs : ID ∈ S.processIDs ↔ S.IsProcess ID := by
  have hmax : S.MAXUSERPROC ≤ 20 := S.processes
  simp only [Setup.processIDs, Finset.mem_image, Finset.mem_range]
  constructor
  · rintro ⟨i, hi, rfl⟩
    have hone : (1 : Word).toNat = 1 := rfl
    constructor
    all_goals
      rw [BitVec.le_def]
      simp only [BitVec.toNat_ofNat, hone]
      omega
  · intro hID
    have hle := hID.le
    refine ⟨ID.toNat - 1, by omega, ?_⟩
    rw [Nat.sub_add_cancel hle.1]
    exact BitVec.ofNat_toNat ..

theorem card_processIDs : S.processIDs.card = S.MAXUSERPROC := by
  have hmax : S.MAXUSERPROC ≤ 20 := S.processes
  refine (Finset.card_image_of_injOn fun i hi j hj heq => ?_).trans (Finset.card_range _)
  have hi : i < S.MAXUSERPROC := by simpa using hi
  have hj : j < S.MAXUSERPROC := by simpa using hj
  have hnat := congrArg BitVec.toNat heq
  simp only [BitVec.toNat_ofNat] at hnat
  omega

theorem zero_notMem_processIDs : 0 ∉ S.processIDs := by
  rw [mem_processIDs]
  exact fun h => absurd h.le.1 (by decide)

theorem awaits_masterSem :
    (userThreads (β := β) S).Awaits .masterSem awaitProcesses where
  zero := ⟨.terminateProcess, _, rfl, rfl⟩
  succ _ := ⟨.passeren .masterSem, _, rfl, rfl, fun _ => rfl, ⟨()⟩⟩

/-- The contract of whatever runs next to `test`. -/
abbrev masterContract (β : Type) (S : Setup) (ID : Word) : Contract Op Op.Answer Bool :=
  (userThreads (β := β) S).joinContract .masterSem (Op.May S ID)

/-- The operation does not concern `masterSem` and the end of a process. -/
def Op.isApart : Op → Bool
  | passeren s => s ≠ .masterSem
  | verhogen s => s ≠ .masterSem
  | terminateProcess => false
  | _ => true

theorem keeps_apart {o : Op} (hapart : o.isApart = true) (hmay : o.May S ID) :
    (masterContract β S ID).pre false o ∧
      ∀ r g', (masterContract β S ID).post false o r g' → g' = false := by
  have hkind : opKind S o ≠ .passeren .masterSem ∧ opKind S o ≠ .verhogen .masterSem ∧
      opKind S o ≠ .exit := by
    cases o with
    | passeren s =>
      have hs : s ≠ .masterSem := by simpa [Op.isApart] using hapart
      simpa [opKind] using hs
    | verhogen s =>
      cases s with
      | uProc_semAdd p =>
        simp only [opKind]
        split <;> simp
      | masterSem => exact absurd hapart (by decide)
      | _ => simp [opKind]
    | terminateProcess => exact absurd hapart Bool.false_ne_true
    | _ => simp [opKind]
  refine ⟨⟨hkind.1, hmay, by simp [userThreads, hkind.2.2]⟩, fun r g' hpost => ?_⟩
  have hiff : g' = true ↔ opKind S o = .verhogen .masterSem ∨ false = true := hpost
  simpa [hkind.2.1] using hiff

/-- All code of phase 3 keeps away from `masterSem` but for the end of a process. -/
theorem unmoved_masterSem (hID : S.IsProcess ID) : Unmoved (masterContract β S ID) false S ID where
  plain o ho := by
    refine keeps_apart ?_ (.inl hID)
    cases o <;> first | exact ho | rfl
  device _ _ _ := keeps_apart rfl (.inl hID)
  pager segment page := by
    refine (always_pager (P := fun o => o.isApart = true) fun o ho => ?_).meets fun o ho =>
      keeps_apart ho (.inl hID)
    cases o with
    | passeren s =>
      obtain rfl | rfl : s = .swap ∨ s = .mutexArray DISK0 := by simpa [Op.isPaging] using ho
      · rfl
      · rfl
    | verhogen s =>
      obtain rfl | rfl : s = .swap ∨ s = .mutexArray DISK0 := by simpa [Op.isPaging] using ho
      · rfl
      · rfl
    | terminateProcess => exact absurd ho Bool.false_ne_true
    | _ => rfl
  ends := by
    have hop : ∀ {o : Op}, o.isApart = true → Stays (masterContract β S ID) false (perform o) :=
      fun h => keeps_apart h (.inl hID)
    have hrelease : ∀ i, Stays (masterContract β S ID) false (releaseFrame ID i) := by
      intro i
      unfold releaseFrame
      refine (hop rfl).bind fun (frame : Swap) => Stays.when fun _ => ?_
      exact (hop rfl).bind fun _ => (hop rfl).bind fun _ => hop rfl
    have hloop : ∀ l : List Nat, Stays (masterContract β S ID) false (l.forM (releaseFrame ID)) := by
      intro l
      induction l with
      | nil => exact Stays.pure
      | cons i l ih => exact (hrelease i).bind fun _ => ih
    unfold meIRL
    refine Meets.bind (hop (o := .passeren .swap) rfl) ?_
    rintro _ _ rfl
    refine Meets.bind (hloop _) ?_
    rintro _ _ rfl
    refine Meets.bind (hop (o := .verhogen .swap) rfl) ?_
    rintro _ _ rfl
    -- the V on `masterSem`, and the end
    refine ⟨⟨by simp [userThreads, opKind], .inl hID, by simp [userThreads, opKind]⟩,
      fun r g' hpost => ?_⟩
    have hg : g' = true := hpost.mpr (.inl rfl)
    subst hg
    exact ⟨⟨by simp [userThreads, opKind], .inl hID, by simp [userThreads, opKind]⟩, fun r => r.elim⟩

theorem unmoved_daemon {n : Nat} : Stays (masterContract β S ID) false (delayDaemon n) := by
  refine unmoved_delayDaemon fun o hplain haccess => ?_
  have hapart : o.isApart = true := by
    cases o <;> first | exact hplain | rfl
  refine keeps_apart hapart (.inr ⟨haccess, ?_⟩)
  cases o with
  | verhogen s =>
    cases s with
    | uProc_semAdd p =>
      simp only [opKind]
      split <;> simp
    | masterSem => exact absurd hapart (by decide)
    | _ => simp [opKind]
  | _ => simp [opKind]

/-- The process has ended or is about to. -/
def Gone (c : UserPool β) (ID : Word) : Prop :=
  c.dead ID = true ∨ ∃ k held fs, c.stack ID = ⟨.call .terminateProcess k, held⟩ :: fs

/-- The next that the process does is its SYS2. -/
def EndsNow (c : UserPool β) (ID : Word) : Prop :=
  c.Running ID ∧ ∃ k held fs, c.stack ID = ⟨.call .terminateProcess k, held⟩ :: fs

theorem opKind_eq_exit {o : Op} (h : opKind S o = .exit) : o = .terminateProcess := by
  cases o with
  | terminateProcess => rfl
  | verhogen s =>
    cases s with
    | uProc_semAdd p =>
      simp only [opKind] at h
      split at h <;> cases h
    | _ => cases h
  | _ => cases h

theorem opKind_eq_passeren {o : Op} {s : Sem} (h : opKind S o = .passeren s) : o = .passeren s := by
  cases o with
  | passeren s' =>
    cases h
    rfl
  | verhogen s' =>
    cases s' with
    | uProc_semAdd p =>
      simp only [opKind] at h
      split at h <;> cases h
    | _ => cases h
  | _ => cases h

theorem gone_iff : Gone c ID ↔ (userThreads S).Finished c ID := by
  refine or_congr_right ⟨?_, ?_⟩
  · rintro ⟨k, held, fs, hstack⟩
    exact ⟨_, fs, hstack, .terminateProcess, k, rfl, rfl⟩
  · rintro ⟨⟨p, held⟩, fs, hstack, o, k, heq, hkind⟩
    obtain rfl := opKind_eq_exit hkind
    obtain rfl : p = _ := heq
    exact ⟨k, held, fs, hstack⟩

/-- The state of the count of the processes that have ended. -/
abbrev Counted (S : Setup) (c : UserPool β) : Prop :=
  ∃ gone n, (userThreads S).Joining .masterSem 0 awaitProcesses (Op.May S) S.processIDs gone n c

theorem Created.counted (h : Created S c) : Counted S c := by
  refine ⟨∅, S.MAXUSERPROC, fun _ => h.test, fun hdead => ?_, fun ID => ?_, ?_, ?_, ?_, fun s _ => ?_,
    fun ID hID => ?_⟩
  · exact absurd ((h.dead 0).symm.trans hdead) Bool.false_ne_true
  · refine ⟨fun hmem => absurd hmem (Finset.notMem_empty ID), fun ⟨hmem, hfin⟩ => ?_⟩
    have hID : ID ≠ 0 := fun heq => zero_notMem_processIDs (heq ▸ hmem)
    exact absurd hfin (Threads.finished_nil (h.dead ID) (h.stack ID hID))
  · rw [h.masterSem, card_processIDs, Finset.card_empty]
    rfl
  · rw [h.masterSem]
    decide
  · rw [h.masterSem, h.queue]
    rfl
  · rw [h.queue]
    exact List.not_mem_nil
  · rw [h.stack ID hID]
    trivial

/-- Whoever enters code is a user process or the daemon, and not about to end. -/
theorem UserEnters.counted {entry : UserEntry} {s' : Phase3 β} {gone : Finset Word} {n : Nat}
    (h : (userThreads S).Joining .masterSem 0 awaitProcesses (Op.May S) S.processIDs gone n c)
    (hrun : c.Running ID) (henter : UserEnters S ID entry (c.stack ID) c.shared s') :
    (S.IsProcess ID ∨ ID ≠ 0 ∧ ∃ n, entry = .daemon n) ∧
      ∀ f fs, c.stack ID = f :: fs → ¬ (userThreads (β := β) S).AtExit f := by
  have huser : ∀ {s : Phase3 β} {fs}, InUserMode S s ID fs → S.IsProcess ID ∧ fs = [] :=
    fun h => ⟨h.1, h.2.1⟩
  have hnil : c.stack ID = [] → ∀ f fs, c.stack ID = f :: fs → ¬ (userThreads (β := β) S).AtExit f := by
    intro hempty f fs hstack
    rw [hempty] at hstack
    cases hstack
  have htrap : CanTrap S c.shared ID (c.stack ID) →
      S.IsProcess ID ∧ ∀ f fs, c.stack ID = f :: fs → ¬ (userThreads (β := β) S).AtExit f := by
    rintro (hmode | ⟨o, k, held, fs, hstack, haccess⟩)
    · exact ⟨(huser hmode).1, hnil (huser hmode).2⟩
    · have hID : ID ≠ 0 := by
        rintro rfl
        obtain ⟨hprog, -, -⟩ := h.joiner_call hstack
        cases n with
        | zero =>
          cases hprog
          exact absurd haccess Bool.false_ne_true
        | succ n =>
          cases hprog
          exact absurd haccess Bool.false_ne_true
      have hjoins := h.frames ID hID
      rw [hstack] at hjoins
      obtain ⟨⟨g, hg⟩, -⟩ := hjoins
      have hmay : o.May S ID := hg.1.2.1
      refine ⟨hmay.resolve_right fun hno => ?_, fun f fs' heq => ?_⟩
      · rw [hno.1] at haccess
        exact absurd haccess Bool.false_ne_true
      · rw [hstack] at heq
        cases heq
        rintro ⟨o', k', heq, hkind⟩
        cases heq
        obtain rfl := opKind_eq_exit hkind
        exact absurd haccess Bool.false_ne_true
  cases entry with
  | daemon n =>
    have hdaemon : c.stack ID = [] ∧ ID = BitVec.ofNat 32 (S.MAXUSERPROC + 2) := by
      generalize c.stack ID = fs at henter
      cases henter with
      | daemon hID => exact ⟨rfl, hID⟩
    refine ⟨.inr ⟨?_, n, rfl⟩, hnil hdaemon.1⟩
    have hmax : S.MAXUSERPROC ≤ 20 := S.processes
    intro hzero
    have hnat := congrArg BitVec.toNat (hdaemon.2.symm.trans hzero)
    have hnone : (0 : Word).toNat = 0 := rfl
    rw [BitVec.toNat_ofNat, hnone] at hnat
    omega
  | boot n =>
    have hboot : c.stack ID = [] ∧ S.IsProcess ID := by
      generalize c.stack ID = fs at henter
      cases henter with
      | boot hID _ => exact ⟨rfl, hID⟩
    exact ⟨.inl hboot.2, hnil hboot.1⟩
  | call n st =>
    cases henter with
    | call hmode => exact ⟨.inl (huser hmode).1, hnil (huser hmode).2⟩
  | tlb st =>
    cases henter with
    | tlb hcan => exact ⟨.inl (htrap hcan).1, (htrap hcan).2⟩
  | program =>
    cases henter with
    | program hcan => exact ⟨.inl (htrap hcan).1, (htrap hcan).2⟩
  | store a =>
    cases henter with
    | store hmode _ _ => exact ⟨.inl (huser hmode).1, hnil (huser hmode).2⟩

theorem counted_of_run (h : (testSystem β S).Reachable c) : Counted S c := by
  refine h.invariant (fun c hinit => Created.counted hinit) ?_
  rintro c e c' ⟨gone, n, hjoin⟩ ⟨hstep, hharmless, -⟩
  refine hjoin.step awaits_masterSem zero_notMem_processIDs rfl hstep (fun ID o hmay hkind => ?_)
    ⟨fun ID entry heq => ?_, fun ID o heq hkind => ?_⟩
  · exact mem_processIDs.mpr (hmay.resolve_right fun hno => hno.2 hkind)
  · subst heq
    cases hstep with
    | enter hrun henter =>
      obtain ⟨hwho, hnone⟩ := UserEnters.counted hjoin hrun henter
      obtain hID | ⟨hzero, n, rfl⟩ := hwho
      · refine ⟨?_, hnone, (unmoved_masterSem hID).userProgram hID⟩
        rintro rfl
        exact zero_notMem_processIDs (mem_processIDs.mpr hID)
      · exact ⟨hzero, hnone, unmoved_daemon⟩
  · subst heq
    have horderly : Orderly S c (.perform ID o) c' := hharmless
    cases hstep with
    | passeren _ _ hother => exact absurd (hother.symm.trans hkind) (by simp)
    | verhogen _ _ hother => exact absurd (hother.symm.trans hkind) (by simp)
    | exit _ _ hother => exact absurd (hother.symm.trans hkind) (by simp)
    | halt _ _ hother => exact absurd (hother.symm.trans hkind) (by simp)
    | other _ _ _ hact => exact congrFun (Acts.value_eq hact hkind horderly) .masterSem

/-- `test` makes its SYS2, which ends all that is left, only when every user process has
ended or is about to; and once that is so, nothing keeps it from it. -/
theorem test_ends_last (h : (testSystem β S).Reachable c) :
    (EndsNow c 0 → ∀ ID, S.IsProcess ID → Gone c ID) ∧
      ((∀ ID, S.IsProcess ID → Gone c ID) → c.halted = false → c.dead 0 = false →
        ∃ l c', (testSystem β S).Path c l c' ∧ EndsNow c' 0) := by
  obtain ⟨gone, n, hjoin⟩ := counted_of_run h
  constructor
  · rintro ⟨hrun, hend⟩ ID hID
    have hfin : (userThreads S).Finished c 0 := gone_iff.mp (.inr hend)
    exact gone_iff.mpr (hjoin.all_finished awaits_masterSem hrun hfin ID (mem_processIDs.mpr hID))
  · intro hall hhalted hdead
    have hfin : ∀ ID ∈ S.processIDs, (userThreads S).Finished c ID :=
      fun ID hID => gone_iff.mp (hall ID (mem_processIDs.mp hID))
    obtain ⟨l, c', hpath, hrun, hfin'⟩ := hjoin.exists_path (s := testSystem β S) awaits_masterSem
      zero_notMem_processIDs rfl hfin hhalted hdead fun c o c' hstep hkind hdead => by
        refine ⟨hstep, ?_, hdead⟩
        obtain rfl := opKind_eq_passeren hkind
        trivial
    refine ⟨l, c', hpath, hrun, (gone_iff.mpr hfin').resolve_left fun hended => ?_⟩
    exact absurd (hrun.dead.symm.trans hended) Bool.false_ne_true

/-- Two processes have been booted, and `test` has created them. -/
def createdPool : UserPool Unit :=
  { (restingPool.setStack 0 [⟨awaitProcesses 2, []⟩]) with
    value := fun s => if s = .masterSem then 0 else 1
    shared := { Phase3.blank () with started := fun _ => true } }

/-- Nobody waits, no frame is in use, `swap` is `v`, and the activations of `ID` are `fs`;
those of the others are as in `c₀`. -/
structure Calm (c₀ : UserPool Unit) (v : Int) (ID : Word) (fs : List (Frame Sem Op Op.Answer))
    (c : UserPool Unit) : Prop where
  reachable : (testSystem Unit .small).Reachable c
  halted : c.halted = false
  dead : ∀ ID, c.dead ID = false
  queue : ∀ s, c.queue s = []
  shared : c.shared = createdPool.shared
  swap : c.value .swap = v
  masterSem : 0 ≤ c.value .masterSem
  stack : c.stack ID = fs
  others : ∀ ID', ID' ≠ ID → c.stack ID' = c₀.stack ID'

section

variable {c₀ c c' : UserPool Unit} {v : Int} {held : List Sem} {fs : List (Frame Sem Op Op.Answer)}

theorem Calm.running (h : Calm c₀ v ID fs c) : c.Running ID := by
  refine ⟨h.halted, h.dead ID, fun ⟨s, hs⟩ => ?_⟩
  rw [h.queue] at hs
  exact absurd hs List.not_mem_nil

theorem Calm.next (h : Calm c₀ v ID fs c) (hstep : (userThreads .small).Step c e c')
    (hharmless : Harmless .small c e c') : (testSystem Unit .small).Reachable c' :=
  h.reachable.step ⟨hstep, hharmless, h.dead 0⟩

theorem Calm.enter (h : Calm c₀ v ID [] c) (hID : ID = 1 ∨ ID = 2) :
    ∃ c', Calm c₀ v ID [⟨meIRL .small ID, []⟩] c' := by
  have huser : InUserMode .small c.shared ID (c.stack ID) := by
    rw [h.shared]
    obtain rfl | rfl := hID
    · exact ⟨by decide, h.stack, rfl⟩
    · exact ⟨by decide, h.stack, rfl⟩
  have hstep : (userThreads .small).Step c (.enter ID .program) _ :=
    .enter h.running (.program (.inl huser))
  refine ⟨_, h.next hstep trivial, h.halted, h.dead, h.queue, h.shared, h.swap, h.masterSem, ?_,
    fun ID' hne => ?_⟩
  · simp [Pool.setStack, h.stack, userThreads, userProgram, vmPrgmHandler]
  · simpa [Pool.setStack, hne] using h.others ID' hne

theorem Calm.passeren {k : Unit → Code Unit}
    (h : Calm c₀ 1 ID (⟨.call (.passeren .swap) k, held⟩ :: fs) c) :
    ∃ c', Calm c₀ 0 ID (⟨k (), .swap :: held⟩ :: fs) c' := by
  have hstep : (userThreads .small).Step c (.perform ID (.passeren .swap)) _ :=
    .passeren (o := .passeren .swap) (r := ()) h.running h.stack rfl
  refine ⟨_, h.next hstep trivial, h.halted, h.dead, fun s => ?_, h.shared, ?_, ?_, ?_,
    fun ID' hne => ?_⟩
  · simp [Pool.setStack, Pool.passeren, h.swap, h.queue]
  · simp [Pool.setStack, Pool.passeren, h.swap]
  · simpa [Pool.setStack, Pool.passeren] using h.masterSem
  · exact Function.update_self _ _ _
  · simpa [Pool.setStack, Pool.passeren, hne] using h.others ID' hne

theorem Calm.getSwap {i : Nat} {k : Swap → Code Unit}
    (h : Calm c₀ v ID (⟨.call (.getSwap i) k, held⟩ :: fs) c) :
    ∃ c', Calm c₀ v ID (⟨k ⟨-1, 0, 0, .null⟩, held⟩ :: fs) c' := by
  have hstep : (userThreads .small).Step c (.perform ID (.getSwap i)) _ :=
    .other (o := .getSwap i) h.running h.stack rfl Acts.getSwap
  refine ⟨_, h.next hstep trivial, h.halted, h.dead, h.queue, h.shared, h.swap, h.masterSem, ?_,
    fun ID' hne => ?_⟩
  · rw [h.shared]
    exact Function.update_self _ _ _
  · simpa [Pool.setStack, hne] using h.others ID' hne

theorem Calm.verhogen {k : Unit → Code Unit}
    (h : Calm c₀ 0 ID (⟨.call (.verhogen .swap) k, held⟩ :: fs) c) :
    ∃ c' held', Calm c₀ 1 ID (⟨k (), held'⟩ :: fs) c' := by
  have hstep : (userThreads .small).Step c (.perform ID (.verhogen .swap)) _ :=
    .verhogen (o := .verhogen .swap) (r := ()) h.running h.stack rfl
  refine ⟨_, _, h.next hstep trivial, h.halted, h.dead, fun s => ?_, h.shared, ?_, ?_,
    Function.update_self _ _ _, fun ID' hne => ?_⟩
  · simp [Pool.setStack, Pool.verhogen, h.swap, h.queue]
  · simp [Pool.setStack, Pool.verhogen, h.swap]
  · simpa [Pool.setStack, Pool.verhogen] using h.masterSem
  · simpa [Pool.setStack, Pool.verhogen, hne] using h.others ID' hne

theorem Calm.count {k : Unit → Code Unit}
    (h : Calm c₀ v ID (⟨.call (.verhogen .masterSem) k, held⟩ :: fs) c) :
    ∃ c' held', Calm c₀ v ID (⟨k (), held'⟩ :: fs) c' := by
  have hpos := h.masterSem
  have hpass : ¬ c.value .masterSem + 1 ≤ 0 := by omega
  have hstep : (userThreads .small).Step c (.perform ID (.verhogen .masterSem)) _ :=
    .verhogen (o := .verhogen .masterSem) (r := ()) h.running h.stack rfl
  refine ⟨_, _, h.next hstep trivial, h.halted, h.dead, fun s => ?_, h.shared, ?_, ?_,
    Function.update_self _ _ _, fun ID' hne => ?_⟩
  · simp [Pool.setStack, Pool.verhogen, hpass, h.queue]
  · simpa [Pool.setStack, Pool.verhogen] using h.swap
  · simp only [Pool.setStack, Pool.verhogen, Function.update_self]
    omega
  · simpa [Pool.setStack, Pool.verhogen, hne] using h.others ID' hne

/-- A process that executes its own instructions ends. -/
theorem Calm.exists_gone (h : Calm c₀ 1 ID [] c) (hID : ID = 1 ∨ ID = 2) :
    ∃ c' k held, Calm c₀ 1 ID [⟨.call .terminateProcess k, held⟩] c' := by
  obtain ⟨c₁, h₁⟩ := h.enter hID
  obtain ⟨c₂, h₂⟩ := Calm.passeren h₁
  obtain ⟨c₃, h₃⟩ := Calm.getSwap h₂
  have hfree : Calm c₀ 0 ID
      [⟨do Code.verhogen Sem.swap; Code.verhogen Sem.masterSem; terminateProcess, [.swap]⟩] c₃ := by
    obtain rfl | rfl := hID
    · exact h₃
    · exact h₃
  obtain ⟨c₄, held₄, h₄⟩ := Calm.verhogen hfree
  obtain ⟨c₅, held₅, h₅⟩ := Calm.count h₄
  exact ⟨c₅, _, held₅, h₅⟩

end

theorem createdPool_calm : Calm createdPool 1 1 [] createdPool := by
  refine ⟨.init ⟨?_, fun ID hID => ?_, fun s hs => ?_, rfl, fun _ => rfl, fun _ => rfl, rfl⟩, rfl,
    fun _ => rfl, fun _ => rfl, rfl, rfl, le_refl 0, rfl, fun _ _ => rfl⟩
  · change Function.update restingPool.stack 0 [⟨awaitProcesses 2, []⟩] 0 = [⟨awaitProcesses 2, []⟩]
    exact Function.update_self _ _ _
  · exact Function.update_of_ne hID _ restingPool.stack
  · exact if_neg (by rintro rfl; exact absurd hs Bool.false_ne_true)

/-- Both processes end. -/
theorem test_ends_last_small : ∃ c l c', (testSystem Unit .small).Path c l c' ∧ EndsNow c 1 ∧
    EndsNow c 2 ∧ EndsNow c' 0 := by
  obtain ⟨c₁, k₁, held₁, h₁⟩ := createdPool_calm.exists_gone (.inl rfl)
  have hnext : Calm c₁ 1 2 [] c₁ :=
    ⟨h₁.reachable, h₁.halted, h₁.dead, h₁.queue, h₁.shared, h₁.swap, h₁.masterSem,
      (h₁.others 2 (by decide)).trans rfl, fun _ _ => rfl⟩
  obtain ⟨c₂, k₂, held₂, h₂⟩ := hnext.exists_gone (.inr rfl)
  have hends₁ : EndsNow c₂ 1 :=
    ⟨⟨h₂.halted, h₂.dead 1, fun ⟨s, hs⟩ => by simp [h₂.queue] at hs⟩, k₁, held₁, [],
      (h₂.others 1 (by decide)).trans h₁.stack⟩
  have hends₂ : EndsNow c₂ 2 := ⟨h₂.running, k₂, held₂, [], h₂.stack⟩
  obtain ⟨l, c', hpath, hends⟩ := (test_ends_last h₂.reachable).2 (fun ID hID => by
    have hle := hID.le
    have hmax : ID.toNat ≤ 2 := hle.2
    have hID : ID = 1 ∨ ID = 2 := by
      obtain hone | htwo : ID.toNat = 1 ∨ ID.toNat = 2 := by omega
      · exact .inl (BitVec.eq_of_toNat_eq hone)
      · exact .inr (BitVec.eq_of_toNat_eq htwo)
    obtain rfl | rfl := hID
    · exact .inr hends₁.2
    · exact .inr hends₂.2) h₂.halted (h₂.dead 0)
  exact ⟨c₂, l, c', hpath, hends₁, hends₂, hends⟩

end Kaya
