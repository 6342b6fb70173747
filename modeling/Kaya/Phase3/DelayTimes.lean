import Kaya.Phase3.Calls

open Exec Prog

namespace Kaya

open Code

/-- What an operation of DELAY at the time `t` does to the wake times that have been
registered, each with its process, the last one first. -/
inductive DelayActs (t : Word) :
    (o : Op) → List (Word × Word) → o.Answer → List (Word × Word) → Prop where
  | STCK {l : List (Word × Word)} : DelayActs t .STCK l t l
  | insertDelay {l : List (Word × Word)} {wakeTime ID : Word} {accepted : Bool} :
      DelayActs t (.insertDelay wakeTime ID) l accepted ((wakeTime, ID) :: l)
  | other {o : Op} {l : List (Word × Word)} {answer : o.Answer} : o ≠ .STCK →
      (∀ wakeTime ID, o ≠ .insertDelay wakeTime ID) → DelayActs t o l answer l

/-- DELAY of the process `ID` at the time `t` returns, or terminates its caller, and
leaves the wake times `l`. -/
abbrev RunsDelay (S : Setup) (t seconds ID : Word) (x : Option Unit) (l : List (Word × Word)) :
    Prop :=
  (delay S seconds ID).Runs (DelayActs t) (fun o => o = .terminateProcess) [] x l

/-- The caller is terminated, or its wake time is the number of seconds later. -/
inductive WakesAfter (t seconds ID : Word) : Option Unit → List (Word × Word) → Prop where
  | terminated : WakesAfter t seconds ID none []
  | registered {wakeTime : Word} : 0 ≤ seconds.toInt →
      wakeTime.toInt = t.toInt + 1000000 * seconds.toInt →
      WakesAfter t seconds ID (some ()) [(wakeTime, ID)]

/-- DELAY comes to an end, and nobody sleeps for less than he asked for. -/
structure Punctual (S : Setup) (t seconds ID : Word) : Prop where
  ends : ∃ x l, RunsDelay S t seconds ID x l
  right : ∀ x l, RunsDelay S t seconds ID x l → WakesAfter t seconds ID x l

/-- The number of microseconds has its 32nd bit set, or the sum with the time of day
fits into a signed word. -/
def Fits (t seconds : Word) : Prop :=
  2 ^ 31 ≤ 1000000 * seconds.toInt % 2 ^ 32 ∨
    0 ≤ seconds.toInt ∧ t.toInt + 1000000 * seconds.toInt < 2 ^ 31

variable {S : Setup} {t seconds ID : Word} {x : Option Unit} {l : List (Word × Word)}

theorem mul_toInt (seconds : Word) : (seconds * 1000000).toInt =
    if 1000000 * seconds.toInt % 2 ^ 32 < 2 ^ 31 then 1000000 * seconds.toInt % 2 ^ 32
      else 1000000 * seconds.toInt % 2 ^ 32 - 2 ^ 32 := by
  have hmillion : (1000000 : Word).toInt = 1000000 := by decide
  rw [BitVec.toInt_mul, hmillion, Int.mul_comm, Int.bmod_def]
  rfl

theorem mul_negative : (seconds * 1000000).toInt < 0 ↔ 2 ^ 31 ≤ 1000000 * seconds.toInt % 2 ^ 32 := by
  rw [mul_toInt]
  split <;> omega

/-- The sum is exact if and only if it fits, whether or not the product has wrapped. -/
theorem wakeTime_exact (ht : 0 ≤ t.toInt) (hseconds : 0 ≤ seconds.toInt) :
    (t + seconds * 1000000).toInt = t.toInt + 1000000 * seconds.toInt ↔
      t.toInt + 1000000 * seconds.toInt < 2 ^ 31 := by
  constructor
  · intro heq
    rw [← heq]
    exact BitVec.toInt_lt
  · intro hfits
    have hmul : (seconds * 1000000).toInt = 1000000 * seconds.toInt := by
      rw [mul_toInt]
      split <;> omega
    rw [BitVec.toInt_add, hmul, Int.bmod_def]
    split <;> omega

theorem delayActs_STCK {time : Word} {l' : List (Word × Word)} :
    DelayActs t .STCK l time l' ↔ time = t ∧ l' = l := by
  constructor
  · intro h
    cases h with
    | STCK => exact ⟨rfl, rfl⟩
    | other hne _ => exact absurd rfl hne
  · rintro ⟨rfl, rfl⟩
    exact .STCK

theorem delayActs_insertDelay {wakeTime : Word} {accepted : Bool} {l' : List (Word × Word)} :
    DelayActs t (.insertDelay wakeTime ID) l accepted l' ↔ l' = (wakeTime, ID) :: l := by
  constructor
  · intro h
    cases h with
    | insertDelay => rfl
    | other _ hne => exact absurd rfl (hne _ _)
  · rintro rfl
    exact .insertDelay

/-- A process that ends registers nothing. -/
theorem runs_exit : (∃ l, (meIRL S ID).Runs (DelayActs t) (fun o => o = .terminateProcess) [] none l) ∧
    ∀ x l, (meIRL S ID).Runs (DelayActs t) (fun o => o = .terminateProcess) [] x l →
      x = none ∧ l = [] := by
  have hmeets : (meIRL S ID).Always fun o => ∀ l, o = .terminateProcess ∨
      ∃ answer l', DelayActs t o l answer l' := by
    refine always_exit fun o ho l => ?_
    cases o with
    | terminateProcess => exact Or.inl rfl
    | passeren => exact Or.inr ⟨(), l, .other nofun nofun⟩
    | verhogen => exact Or.inr ⟨(), l, .other nofun nofun⟩
    | getSwap => exact Or.inr ⟨⟨0, 0, 0, .null⟩, l, .other nofun nofun⟩
    | setSwap => exact Or.inr ⟨(), l, .other nofun nofun⟩
    | getEntryLO => exact Or.inr ⟨(0 : Word), l, .other nofun nofun⟩
    | setEntryLO => exact Or.inr ⟨(), l, .other nofun nofun⟩
    | _ => exact absurd ho Bool.false_ne_true
  have hnothing : ∀ x l, (meIRL S ID).Runs (DelayActs t) (fun o => o = .terminateProcess) [] x l →
      x = none ∧ l = [] := by
    intro x l h
    constructor
    · cases x with
      | none => rfl
      | some _ => exact absurd h noReturn_meIRL.not_runs
    · refine h.keeps (I := (· = [])) (always_exit fun o ho s answer s' hact hs => ?_) rfl
      cases hact with
      | STCK => exact hs
      | insertDelay => exact absurd ho Bool.false_ne_true
      | other _ _ => exact hs
  refine ⟨?_, hnothing⟩
  obtain ⟨x, l, h⟩ := hmeets.exists_runs []
  obtain ⟨rfl, -⟩ := hnothing x l h
  exact ⟨l, h⟩

/-- A negative product terminates the caller before anything is registered. -/
theorem runsDelay_negative (hneg : (seconds * 1000000).toInt < 0) :
    (∃ l, RunsDelay S t seconds ID none l) ∧
      ∀ x l, RunsDelay S t seconds ID x l → x = none ∧ l = [] := by
  obtain ⟨⟨l, hends⟩, hnothing⟩ := runs_exit (S := S) (t := t)
  refine ⟨⟨l, ?_⟩, fun x l h => ?_⟩
  · exact (runs_when.mpr (Or.inl ⟨hneg, hends⟩)).bind_none
  · rcases h.of_bind with ⟨_, _, hwhen, -⟩ | ⟨rfl, hwhen⟩
    · rcases runs_when.mp hwhen with ⟨-, hexits⟩ | ⟨hpos, -⟩
      · exact absurd hexits noReturn_meIRL.not_runs
      · exact absurd hneg hpos
    · rcases runs_when.mp hwhen with ⟨-, hexits⟩ | ⟨hpos, -⟩
      · exact hnothing _ _ hexits
      · exact absurd hneg hpos

/-- Otherwise the sum is registered, whatever the answer. -/
theorem runsDelay_iff (hpos : ¬ (seconds * 1000000).toInt < 0) :
    RunsDelay S t seconds ID x l ↔ x = some () ∧ l = [(t + seconds * 1000000, ID)] := by
  unfold RunsDelay delay
  constructor
  · intro h
    rcases h.of_bind with ⟨_, _, hwhen, h⟩ | ⟨-, hwhen⟩
    · rcases runs_when.mp hwhen with ⟨hneg, -⟩ | ⟨-, -, rfl⟩
      · exact absurd hneg hpos
      · obtain ⟨_, _, hinsert, h⟩ := (runs_perform_bind nofun).mp h
        obtain ⟨_, _, hclock, h⟩ := (runs_perform_bind nofun).mp h
        obtain ⟨_, _, hregister, h⟩ := (runs_perform_bind nofun).mp h
        cases hinsert
        obtain ⟨rfl, rfl⟩ := delayActs_STCK.mp hclock
        obtain rfl := delayActs_insertDelay.mp hregister
        cases h with
        | call hwait h =>
          cases hwait
          exact runs_ret.mp h
        | stop hends => exact absurd hends nofun
    · rcases runs_when.mp hwhen with ⟨hneg, -⟩ | ⟨-, hnone, -⟩
      · exact absurd hneg hpos
      · exact absurd hnone nofun
  · rintro ⟨rfl, rfl⟩
    have hwhen : (Prog.when ((seconds * 1000000).toInt < 0) (meIRL S ID)).Runs (DelayActs t)
        (fun o => o = .terminateProcess) [] (some ()) [] := runs_when.mpr (Or.inr ⟨hpos, rfl, rfl⟩)
    refine hwhen.bind (.call (r := true) (.other nofun nofun) (.call .STCK ?_))
    exact .call (r := true) .insertDelay (.call (.other nofun nofun) .ret)

/-- The caller is terminated, or sleeps for as long as it has asked for, if and only if
nothing wraps or the product gets negative. -/
theorem punctual_iff (ht : 0 ≤ t.toInt) : Punctual S t seconds ID ↔ Fits t seconds := by
  unfold Fits
  rw [← mul_negative]
  by_cases hneg : (seconds * 1000000).toInt < 0
  · obtain ⟨⟨l, hends⟩, hnothing⟩ := runsDelay_negative (S := S) (t := t) hneg
    refine iff_of_true ⟨⟨none, l, hends⟩, fun x l h => ?_⟩ (Or.inl hneg)
    obtain ⟨rfl, rfl⟩ := hnothing x l h
    exact .terminated
  · have hruns : ∀ {x l}, RunsDelay S t seconds ID x l ↔ _ := runsDelay_iff hneg
    constructor
    · intro h
      cases h.right _ _ (hruns.mpr ⟨rfl, rfl⟩) with
      | registered hseconds hexact =>
        exact Or.inr ⟨hseconds, (wakeTime_exact ht hseconds).mp hexact⟩
    · intro h
      obtain ⟨hseconds, hfits⟩ := h.resolve_left hneg
      refine ⟨⟨_, _, hruns.mpr ⟨rfl, rfl⟩⟩, fun x l h => ?_⟩
      obtain ⟨rfl, rfl⟩ := hruns.mp h
      exact .registered hseconds ((wakeTime_exact ht hseconds).mpr hfits)

/-- Five seconds after the start. -/
theorem punctual_iff_five : Punctual .small 0 5 1 ↔ Fits 0 5 :=
  punctual_iff (t := 0) (by decide)

/-- 4295 seconds are registered as 32704 microseconds. -/
theorem not_always_punctual : ¬ ∀ (S : Setup) (t seconds ID : Word), 0 ≤ t.toInt →
    Punctual S t seconds ID := by
  intro hall
  have hpunctual := hall .small 0 4295 1 (by decide)
  have hpos : ¬ ((4295 : Word) * 1000000).toInt < 0 := by decide
  cases hpunctual.right _ _ ((runsDelay_iff hpos).mpr ⟨rfl, rfl⟩) with
  | registered _ hexact => exact absurd hexact (by decide)

end Kaya
