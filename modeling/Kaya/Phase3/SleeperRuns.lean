import Kaya.Exec.Solo
import Kaya.Phase3.Sleepers

open Exec Prog Sleepers

namespace Kaya

variable {β : Type} {S : Setup} {c : UserPool β} {ID t : Word} {o : Op} {k : o.Answer → Code Unit}
  {held : List Sem} {fs : List (Frame Sem Op Op.Answer)}

theorem Initialised.tended (h : Initialised c) : Tended S c := by
  have hinv := avslSystem_init h.avsl
  have hwaiters : c.shared.avsl.waiters = [] := hinv.lists.waiters_eq
  refine ⟨fun p => ?_, ⟨_, _, hinv⟩, adlSystem_init h.adl, ?_, ?_⟩
  · rw [h.rest.stack]
    trivial
  · rw [hwaiters]
    exact fun _ he => absurd he List.not_mem_nil
  · refine Beds.made_of_empty ?_ (fun p => ?_) h.private_zero fun p => h.rest.queue _
    · simp [bedsOf, hwaiters]
    · simp only [bedsOf, h.rest.stack]
      rfl

theorem About.registered (h : About c ID (.passeren (.uProc_semAdd ID))) :
    (bedsOf S c).phase ID = .registered := by
  obtain ⟨k, held, fs, hstack⟩ := h
  simp only [bedsOf, hstack]
  rfl

theorem About.waking (h : About c t (.verhogen (.uProc_semAdd ID))) (hID : S.IsProcess ID) :
    (bedsOf S c).phase t = .waking ID := by
  obtain ⟨k, held, fs, hstack⟩ := h
  simp only [bedsOf, hstack]
  exact if_pos hID

theorem exists_about (hphase : (bedsOf S c).phase t ≠ .awake) :
    ∃ o, About c t o ∧ o.phase S = (bedsOf S c).phase t := by
  simp only [bedsOf] at hphase ⊢
  unfold About
  generalize c.stack t = fs at hphase
  cases fs with
  | nil => exact absurd rfl hphase
  | cons f fs =>
    obtain ⟨p, held⟩ := f
    cases p with
    | ret _ => exact absurd rfl hphase
    | call o k => exact ⟨o, ⟨k, held, fs, rfl⟩, rfl⟩

section listed

variable (h : Tended S c)

include h

/-- Whoever is about to do a P or V on a private semaphore has been registered itself
or has taken somebody out of the register. -/
theorem Tended.about (hphase : (bedsOf S c).phase t ≠ .awake) :
    (bedsOf S c).phase t = .registered ∧ About c t (.passeren (.uProc_semAdd t)) ∨
    ∃ p, (bedsOf S c).phase t = .waking p ∧ About c t (.verhogen (.uProc_semAdd p)) := by
  obtain ⟨o, habout, heq⟩ := exists_about hphase
  obtain ⟨k, held, fs, hstack⟩ := id habout
  have hstacks := h.stack t
  rw [hstack] at hstacks
  obtain ⟨⟨g, htends⟩, -⟩ := hstacks
  rcases htends.cases with ⟨rfl, -⟩ | ⟨p, rfl, -⟩ | hnow
  · exact .inl ⟨heq.symm, habout⟩
  · refine .inr ⟨p, ?_, habout⟩
    rw [← heq] at hphase ⊢
    simp only [Op.phase] at hphase ⊢
    split
    · rfl
    · rename_i hp
      exact absurd (if_neg hp) hphase
  · exact absurd (heq.symm.trans hnow.phase) hphase

theorem Tended.about_passeren (hphase : (bedsOf S c).phase ID = .registered) :
    About c ID (.passeren (.uProc_semAdd ID)) := by
  have hne : (bedsOf S c).phase ID ≠ .awake := by simp [hphase]
  rcases h.about hne with ⟨-, habout⟩ | ⟨p, hp, -⟩
  · exact habout
  · exact absurd (hphase.symm.trans hp) nofun

theorem Tended.about_verhogen (hphase : (bedsOf S c).phase t = .waking ID) :
    About c t (.verhogen (.uProc_semAdd ID)) := by
  have hne : (bedsOf S c).phase t ≠ .awake := by simp [hphase]
  rcases h.about hne with ⟨hp, -⟩ | ⟨p, hp, habout⟩
  · exact absurd (hphase.symm.trans hp) nofun
  · obtain rfl : ID = p := by simpa using hphase.symm.trans hp
    exact habout

/-- Who sleeps is in the register. -/
theorem Tended.mem_of_sleeps {call : Word} (hsleeps : Sleeps c call ID) :
    ID ∈ (bedsOf S c).listed := by
  obtain ⟨-, hwaits, hvalue, hunwoken⟩ := hsleeps
  cases h.made.bed ID with
  | up _ hphase _ hqueue _ =>
    rcases hwaits with habout | hin
    · exact absurd habout.registered hphase
    · exact absurd (hqueue ▸ hin : ID ∈ []) List.not_mem_nil
  | listed hin _ _ => exact hin
  | called t _ _ ht => exact absurd (h.about_verhogen ((ht t).mpr rfl)) (hunwoken t)
  | released _ _ hone _ _ =>
    have hle : (bedsOf S c).value ID ≤ 0 := hvalue
    omega

theorem Tended.sleeps {e : Word × Word} (he : e ∈ c.shared.avsl.waiters) :
    Sleeps c PSEMVIRT e.2 ∧ e.1 = (c.shared.old e.2).get (.s_reg s_a1) := by
  obtain ⟨hprocess, hcall, ha1⟩ := h.entries e he
  obtain ⟨habed, hunwoken⟩ := h.made.mem_listed.mp (List.mem_map_of_mem (f := Prod.snd) he)
  refine ⟨⟨hcall, ?_, ?_, fun t habout => hunwoken t (habout.waking hprocess)⟩, ha1⟩
  · cases habed with
    | about hphase _ _ => exact .inl (h.about_passeren hphase)
    | asleep _ _ hqueue =>
      right
      have hin : e.2 ∈ (bedsOf S c).queue e.2 := by simp [hqueue]
      exact hin
  · cases habed with
    | about _ hvalue _ => exact le_of_eq hvalue
    | asleep _ hvalue _ =>
      have hneg : c.value (.uProc_semAdd e.2) = -1 := hvalue
      omega

theorem Tended.listed : SleepersListed c [] [] := by
  refine ⟨fun a ID => ⟨fun he => h.sleeps he, ?_⟩, List.Nodup.of_map _ h.made.nodup, h.adl,
    fun ID => ⟨fun hin => absurd hin List.not_mem_nil, fun hsleeps => ?_⟩, List.nodup_nil,
    fun ID a p _ => ?_, fun ID a p habout => ?_, fun ID x hx => ?_⟩
  · rintro ⟨hsleeps, rfl⟩
    obtain ⟨e, he, rfl⟩ := List.mem_map.mp (h.mem_of_sleeps hsleeps)
    rw [← (h.sleeps he).2]
    exact he
  · obtain ⟨e, he, rfl⟩ := List.mem_map.mp (h.mem_of_sleeps hsleeps)
    exact absurd ((h.entries e he).2.1.symm.trans hsleeps.called) (by decide)
  · obtain ⟨_, _, hinv⟩ := h.avsl
    obtain ⟨l, -, -, hrun, -⟩ := hinv.insert a p
    rw [decide_eq_true h.room] at hrun
    exact ⟨l, hrun⟩
  · obtain ⟨k, held, fs, hstack⟩ := habout
    have hstacks := h.stack ID
    rw [hstack] at hstacks
    obtain ⟨⟨g, htends⟩, -⟩ := hstacks
    rcases htends.cases with ⟨hother, -⟩ | ⟨_, hother, -⟩ | hnow
    · exact absurd hother nofun
    · exact absurd hother nofun
    · exact absurd hnow.1 nofun
  · obtain ⟨rfl, hentry⟩ := h.made.queued hx
    refine ⟨rfl, ?_⟩
    rcases hentry with hin | ⟨t, ht⟩
    · obtain ⟨e, he, rfl⟩ := List.mem_map.mp hin
      exact .inl ⟨e.1, he⟩
    · exact .inr (.inr ⟨t, h.about_verhogen ht⟩)

end listed

theorem tended_of_run (h : ((sleeperSystem β S).restrict (Undelayed S)).Reachable c) : Tended S c :=
  h.invariant (fun _ => Initialised.tended) fun _ _ _ htended hstep => htended.step hstep.1 hstep.2

/-- As long as no process sleeps with DELAY, every sleeper has its wake-up. -/
theorem sleepers_of_run (h : ((sleeperSystem β S).restrict (Undelayed S)).Reachable c) :
    ∃ nodes avail, SleepersListed c nodes avail :=
  ⟨[], [], (tended_of_run h).listed⟩

/-- All mutexes are 1, the private semaphores are 0, the lists have been initialised, and
all processes have been booted. -/
def sleeperPool : UserPool Unit where
  value s := if s.isMutex = true then 1 else 0
  queue _ := []
  stack _ := []
  dead _ := false
  halted := false
  shared := { Phase3.blank () with started := fun _ => true, adl := adlStart, avsl := avslStart }

theorem sleeperPool_initialised : Initialised sleeperPool :=
  ⟨⟨fun _ => rfl, fun _ hs => if_pos hs, fun _ => rfl, fun _ => rfl, rfl⟩, fun _ => rfl,
    adlStart_init, avslStart_init⟩

/-- A system call with one argument. -/
def semCall (call a1 : Word) : State :=
  { State.zero with s_reg := fun i => if i = s_a0 then call else if i = s_a1 then a1 else 0 }

/-- Runs in which no process sleeps with DELAY. -/
abbrev sleeperScript : Script (UserScene Unit) (Happening Word UserEntry Op) UserCue :=
  (userScript Unit .small).restrict fun c e c' => Undelayed .small c.pool e c'.pool

def sleeperPlay (l : List UserCue) : UserPool Unit :=
  (sleeperScript.play (.start sleeperPool fun _ => rfl) l).pool

theorem sleeperPlay_reachable {l : List UserCue}
    (h : sleeperScript.plays (.start sleeperPool fun _ => rfl) l = true) :
    ((sleeperSystem Unit .small).restrict (Undelayed .small)).Reachable (sleeperPlay l) := by
  have hfollows : sleeperScript.Follows
      (((sleeperSystem Unit .small).restrict (Undelayed .small)).comap Scene.pool) :=
    (Scene.script_follows Initialised).restrict
  have hstart : (((sleeperSystem Unit .small).restrict (Undelayed .small)).comap
      Scene.pool).Reachable (.start sleeperPool fun _ => rfl) := .init sleeperPool_initialised
  exact (hfollows.reachable hstart h).of_comap

/-- The first process does a P on a word of the shared segment that is 0: it brings the page
in, makes the word -1, and blocks. -/
def asleepCues : List UserCue :=
  List.flatten [[.enter 1 (.call 0 (semCall PSEMVIRT SEG3))], onwards 1 4,
    [.enter 1 (.tlb sharedFault)], onwards 1 11, [.leave 1], onwards 1 2, [.perform 1 (-1)],
    onwards 1 2]

/-- The second process does a V on the word. -/
def wokenCues : List UserCue :=
  List.flatten [asleepCues, [.enter 2 (.call 0 (semCall VSEMVIRT SEG3))], onwards 2 4,
    [.perform 2 (-1)], onwards 2 4]

/-- The first process sleeps with its entry until the second one wakes it. -/
theorem sleepers_of_run_small :
    (sleeperPlay asleepCues).queue (.uProc_semAdd 1) = [1] ∧
    (sleeperPlay asleepCues).shared.avsl.waiters = [(SEG3, 1)] ∧
    (∃ nodes avail, SleepersListed (sleeperPlay asleepCues) nodes avail) ∧
    (sleeperPlay wokenCues).queue (.uProc_semAdd 1) = [] ∧
    (sleeperPlay wokenCues).shared.avsl.waiters = [] ∧
    ∃ nodes avail, SleepersListed (sleeperPlay wokenCues) nodes avail := by
  have hasleep := sleeperPlay_reachable (l := asleepCues) (by decide +kernel)
  have hwoken := sleeperPlay_reachable (l := wokenCues) (by decide +kernel)
  exact ⟨by decide +kernel, by decide +kernel, sleepers_of_run hasleep, by decide +kernel,
    by decide +kernel, sleepers_of_run hwoken⟩

/-- A delay that does not end the process. -/
theorem delay_of_nonneg {seconds : Word} (hpos : ¬ (seconds * 1000000).toInt < 0) :
    delay S seconds ID = (do
      let _ ← Code.vInsertBlocked (S.semAddress ID) ID
      let _ ← Code.insertDelay ((← Code.STCK) + seconds * 1000000) ID
      Code.passeren (.uProc_semAdd ID) : Code Unit) := by
  unfold delay
  dsimp only
  rw [Prog.when, if_neg hpos]
  rfl

section solo

variable {v v' : Sem → Int} {s s' : Phase3 β} {init : UserPool β → Prop}

theorem solo_act {r : o.Answer} (h : (userThreads S).Solo init t (⟨.call o k, held⟩ :: fs) v s)
    (hact : Acts S t o (v, s) r (v', s')) (hkind : opKind S o = .other) :
    (userThreads S).Solo init t (⟨k r, held⟩ :: fs) v' s' := h.other r hkind hact

/-- A process that has called DELAY is served so. -/
theorem solo_delay {n : Nat} (h : (userThreads S).Solo init t (⟨vmSysHandler S n t, held⟩ :: fs) v s)
    (hcall : (s.old t).get (.s_reg s_a0) = DELAY) : (userThreads S).Solo init t
      (⟨delay S ((s.old t).get (.s_reg s_a1)) t, held⟩ :: fs) v s := by
  have h1 := solo_act h .getOld rfl
  have h2 := solo_act h1 .getOld rfl
  have h3 := solo_act h2 .getOld rfl
  have h4 := solo_act h3 .getOld rfl
  have hserve : ∀ call a1 a2 a3 : Word, call = DELAY →
      (if call = READTERMINAL then readTerminal n a1 t
      else if call = WRITETERMINAL then writeTerminal a1 a2 t
      else if call = VSEMVIRT then vSemVirt S a1 t
      else if call = PSEMVIRT then pSemVirt a1 t
      else if call = DELAY then delay S a1 t
      else if call = DISK_PUT then diskIO S a1 a2 a3 DISK_WRITEBLK t
      else if call = DISK_GET then diskIO S a1 a2 a3 DISK_READBLK t
      else if call = WRITEPRINTER then writePrinter a1 a2 t
      else if call = GET_TOD then (do Code.setOld t (.s_reg s_v0) (← Code.STCK))
      else if call = TERMINATE then meIRL S t
      else return) = delay S a1 t := by
    rintro call a1 a2 a3 rfl
    rw [if_neg (by decide), if_neg (by decide), if_neg (by decide), if_neg (by decide), if_pos rfl]
  exact h4.congr (hserve _ _ _ _ hcall)

end solo

/-- DELAY for one second finds no node for the process that calls it. -/
theorem not_always_listed : ¬ ∀ (β : Type) (S : Setup) (c : UserPool β),
    (sleeperSystem β S).Reachable c → ∃ nodes avail, SleepersListed c nodes avail := by
  intro hall
  have hempty := adlSystem_init adlStart_init
  have hinv := avslSystem_init avslStart_init
  have h0 := Threads.Solo.start (S := userThreads (β := Unit) .small) (t := 1)
    sleeperPool_initialised (fun _ => rfl) (fun _ => rfl) (fun _ => rfl) rfl
  have huser : InUserMode .small sleeperPool.shared 1 [] := ⟨by decide, rfl, rfl⟩
  have h1 := h0.enter (e := UserEntry.call 0 (semCall DELAY 1)) (.call huser)
  have h2 := solo_delay h1 (by dsimp only; rw [Function.update_self]; rfl)
  have h3 := h2.congr (delay_of_nonneg (by dsimp only; rw [Function.update_self]; decide))
  obtain ⟨l, -, -, hins, -⟩ := hinv.insert (Setup.small.semAddress 1) 1
  have h4 := solo_act h3 (.vInsertBlocked hins) rfl
  have h5 := solo_act (o := .STCK) (r := (0 : Word)) h4 .STCK rfl
  have h6 := solo_act h5 (.insertDelay ⟨0, fun _ _ => run_insertDelay_full hempty⟩) rfl
  obtain ⟨c, hreach, hstack, hothers, hvalue, hshared, hqueue, -, -⟩ := h6
  obtain ⟨nodes, avail, hlisted⟩ := hall Unit .small c hreach
  have hsleeps : Sleeps c DELAY 1 := by
    have hcalled : (c.shared.old 1).get (.s_reg s_a0) = DELAY := by
      rw [hshared]
      dsimp only
      rw [Function.update_self]
      rfl
    have hzero : c.value (.uProc_semAdd 1) = 0 := by
      rw [hvalue]
      rfl
    refine ⟨hcalled, .inl ⟨_, _, _, hstack⟩, le_of_eq hzero, ?_⟩
    rintro t ⟨k, held, fs, habout⟩
    by_cases ht : t = 1
    · subst ht
      exact absurd (hstack.symm.trans habout) nofun
    · exact absurd ((hothers t ht).symm.trans habout) nofun
  have hlists := hlisted.lists
  rw [hshared] at hlists
  obtain rfl : nodes = [] := hlists.active.unique hempty.active
  exact absurd ((hlisted.delay 1).mpr hsleeps) List.not_mem_nil

end Kaya
