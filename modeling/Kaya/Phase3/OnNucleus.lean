import Kaya.Phase2.Exclusion
import Kaya.Phase3.LockOrder

open Exec

namespace Kaya

variable {β : Type} {M : Machine} {S : Setup} {sems : List Sem}
  {c₀ c : Config} {l : List (Entry × Config)} {u₀ u u' : UserPool β}
  {k : List (Happening Word UserEntry Op × UserPool β)} {y : Happening Word UserEntry Op}

/-- What is seen of a step of the user processes at semaphores of phase 3. -/
def userEvents (S : Setup) (sems : List Sem) (_ : UserPool β) (y : Happening Word UserEntry Op)
    (_ : UserPool β) : List (SemEvent Sem Word) :=
  (userThreads (β := β) S).semEvents sems y

/-- The model of the user processes implements semaphores. -/
theorem user_simulation :
    Simulation ((userSystem β S).restrict (Orderly S)) (Semaphores.system Sem Word)
    (userEvents S sems) fun u m => Semaphores.Agrees id id sems u.semaphores m where
  init u _ := ⟨u.semaphores, trivial, fun _ _ => ⟨rfl, by simp⟩⟩
  step u y u' m hstep hagrees := by
    obtain ⟨hstep, horderly⟩ := hstep
    refine hstep.semaphores (fun ID o heq hkind => ?_) hagrees
    subst heq
    cases hstep with
    | passeren _ _ hother => exact absurd (hother.symm.trans hkind) (by simp)
    | verhogen _ _ hother => exact absurd (hother.symm.trans hkind) (by simp)
    | exit _ _ hother => exact absurd (hother.symm.trans hkind) (by simp)
    | halt _ _ hother => exact absurd (hother.symm.trans hkind) (by simp)
    | other _ _ _ hact => exact Acts.value_eq hact hkind horderly

/-- The processes of the nucleus that the user processes are. -/
def nucleusPid (ID : Word) : Pid := if ID = 1 then firstPid else ⟨18, by decide⟩

end Kaya
