import Kaya.Phase3.MutexRuns

open Exec

namespace Kaya

open Code

variable {β : Type} {S : Setup} {c c' : UserPool β} {ID : Word} {e : Happening Word UserEntry Op}

theorem AtRest.ordered (h : AtRest c) : (userThreads S).Ordered lockRank steady c := by
  refine ⟨fun ID => ?_, fun ID => ?_, fun ID s hs => ?_, fun ID s hs => ?_⟩
  · rw [h.stack]
    trivial
  · rw [h.stack]
    exact List.Pairwise.nil
  all_goals
    rw [h.queue] at hs
    exact absurd hs List.not_mem_nil

theorem ordered_of_run (h : ((userSystem β S).restrict (Orderly S)).Reachable c) :
    (userThreads S).Locked steady c ∧ (userThreads S).Ordered lockRank steady c := by
  let I (c : UserPool β) : Prop := (userThreads S).Locked steady c ∧
    (userThreads S).Ordered lockRank steady c
  have hinv : I c := h.invariant (fun c hinit => ⟨AtRest.locked hinit, AtRest.ordered hinit⟩)
    fun c e c' hinv hstep => by
      have hlocked := hinv.1.step hstep.1 (allowed_of_orderly hinv.1 hstep.1 hstep.2)
      refine ⟨hlocked, hinv.2.step hstep.1 fun ID entry heq => ?_⟩
      subst heq
      cases hstep.1 with
      | enter _ henter =>
        exact (UserEnters.keeps hinv.1 henter hstep.2).mono fun _ _ _ => trivial
  exact hinv

/-- In an orderly run the user processes never block each other: while one waits for a
mutex, one that has a mutex can go on. -/
theorem no_deadlock (h : ((userSystem β S).restrict (Orderly S)).Reachable c)
    (hhalted : c.halted = false) {s : Sem} (hmutex : s.isMutex = true) (hwaits : ID ∈ c.queue s) :
    ∃ s' ID', s'.isMutex = true ∧ lockRank s ≤ lockRank s' ∧ c.Holds ID' s' ∧ c.Running ID' := by
  obtain ⟨hlocked, hordered⟩ := ordered_of_run h
  have hbound : ∀ s, lockRank s ≤ 2 := by
    intro s
    cases s with
    | mutexArray d =>
      simp only [lockRank]
      split <;> omega
    | _ => simp [lockRank]
  exact hordered.exists_running hlocked hhalted hbound hmutex hwaits

/-- Both processes fault: the second one waits for `swap`. -/
theorem no_deadlock_ends : ∃ c : UserPool Unit, 2 ∈ c.queue .swap ∧
    ∃ s' ID', s'.isMutex = true ∧ lockRank .swap ≤ lockRank s' ∧ c.Holds ID' s' ∧ c.Running ID' := by
  have hreach := orderlyPlay_reachable (l := contendedCues) (by decide +kernel)
  have hwaits : 2 ∈ (orderlyPlay contendedCues).queue .swap := by decide +kernel
  exact ⟨_, hwaits, no_deadlock hreach (by decide +kernel) rfl hwaits⟩

/-- The next that the process does is a command to a device. -/
def Commands (c : UserPool β) (ID : Word) (cmd : Command) : Prop :=
  c.Running ID ∧ ∃ k held fs, c.stack ID = ⟨.call (.waitio cmd) k, held⟩ :: fs

theorem Commands.holds {cmd : Command} (hlocked : (userThreads S).Locked steady c)
    (hcmd : Commands c ID cmd) : c.Holds ID (.mutexArray cmd.mutex) := by
  obtain ⟨hrun, k, held, fs, hstack⟩ := hcmd
  have hmem : .mutexArray cmd.mutex ∈ taken (c.stack ID) := (hlocked.during hstack rfl).2
  obtain ⟨f, hf, hheld⟩ := List.mem_flatMap.mp hmem
  exact ⟨⟨f, hf, hheld⟩, fun hwaits => hrun.ready ⟨_, hwaits⟩⟩

/-- In an orderly run a process that gives a command to a device has the mutex of the
device to itself, and no other process gives a command to it at that time. -/
theorem commands_alone {cmd : Command} (h : ((userSystem β S).restrict (Orderly S)).Reachable c)
    (hcmd : Commands c ID cmd) :
    c.Holds ID (.mutexArray cmd.mutex) ∧
      (∀ ID', c.Holds ID' (.mutexArray cmd.mutex) → ID' = ID) ∧
      ∀ ID' cmd', Commands c ID' cmd' →
        cmd'.devNum = cmd.devNum → cmd'.transm = cmd.transm → ID' = ID := by
  have hlocked := locked_of_run h
  have hholds := hcmd.holds hlocked
  refine ⟨hholds, fun ID' hID' => hlocked.holds_unique rfl hID' hholds,
    fun ID' cmd' hcmd' hdev htransm => ?_⟩
  have hmutex : cmd'.mutex = cmd.mutex := by
    rw [Command.mutex, Command.mutex, hdev, htransm]
  exact hlocked.holds_unique rfl (hmutex ▸ hcmd'.holds hlocked) hholds

/-- The second process loads its tape. -/
theorem commands_alone_boot : ∃ c : UserPool Unit, Commands c 2 (tapeCommand 2) ∧
    c.Holds 2 (.mutexArray (tapeNumber 2)) ∧
      ∀ ID, c.Holds ID (.mutexArray (tapeNumber 2)) → ID = 2 := by
  have hrest : ((userSystem Unit .small).restrict (Orderly .small)).Reachable restingPool :=
    .init restingPool_atRest
  have hrun : restingPool.Running 2 := ⟨rfl, rfl, fun ⟨s, hs⟩ => absurd hs List.not_mem_nil⟩
  let c₁ : UserPool Unit :=
    { restingPool.setStack 2 [⟨uProcInit 1 2, []⟩] with
      shared := { restingPool.shared with
        started := Function.update restingPool.shared.started 2 true } }
  have henter : (userThreads .small).Step restingPool (.enter 2 (.boot 1)) c₁ :=
    .enter hrun (UserEnters.boot (by decide) (by decide))
  have hboot : ((userSystem Unit .small).restrict (Orderly .small)).Reachable c₁ :=
    hrest.step ⟨henter, trivial⟩
  have hrun₁ : c₁.Running 2 := ⟨rfl, rfl, hrun.ready⟩
  have hstack₁ : c₁.stack 2 = [⟨.call (.passeren (.mutexArray (tapeNumber 2))) _, []⟩] :=
    rfl
  have hask : (userThreads .small).Step c₁ (.perform 2 (.passeren (.mutexArray (tapeNumber 2)))) _ :=
    .passeren (o := .passeren (.mutexArray (tapeNumber 2))) (r := ()) hrun₁ hstack₁ rfl
  obtain ⟨c₂, htake, hcmd⟩ : ∃ c₂, ((userSystem Unit .small).restrict (Orderly .small)).Reachable c₂ ∧
      Commands c₂ 2 (tapeCommand 2) :=
    ⟨_, hboot.step ⟨hask, trivial⟩, ⟨rfl, rfl, hrun.ready⟩, _, _, _, rfl⟩
  obtain ⟨hholds, hunique, -⟩ := commands_alone htake hcmd
  exact ⟨c₂, hcmd, hholds, hunique⟩

end Kaya
