import Kaya.Exec.Alone
import Kaya.Phase3.AvslRuns
import Kaya.Phase3.VmIOSupport

open Links Exec Prog

namespace Kaya

open Code

/-- What VSEMVIRT changes: the value of the semaphore, with the values that have been
stored to it, the list of the blocked processes, and the processes on whose private
semaphores a V has been made, the last one first. -/
structure VirtualV where
  value : Word
  stored : List Word
  avsl : Avsl Vid
  woken : List Word

/-- What an operation of VSEMVIRT on `semAdd` does. -/
inductive VirtualV.Acts (semAdd : Word) : (o : Op) → VirtualV → o.Answer → VirtualV → Prop where
  | loadWord {w : VirtualV} : Acts semAdd (.loadWord semAdd) w w.value w
  | storeWord {w : VirtualV} {v : Word} : Acts semAdd (.storeWord semAdd v) w ()
      { w with value := v, stored := v :: w.stored }
  | vRemoveBlocked {w : VirtualV} {vSemAdd answer : Word} {s : Avsl Vid} :
      Returns (fun n => vRemoveBlocked n vSemAdd) w.avsl answer s →
      Acts semAdd (.vRemoveBlocked vSemAdd) w answer { w with avsl := s }
  | uProc_semAdd {w : VirtualV} {ID : Word} : Acts semAdd (.verhogen (.uProc_semAdd ID)) w ()
      { w with woken := ID :: w.woken }
  | passeren {w : VirtualV} {s : Sem} : Acts semAdd (.passeren s) w () w
  | verhogen {w : VirtualV} {s : Sem} : (∀ ID, s ≠ .uProc_semAdd ID) →
      Acts semAdd (.verhogen s) w () w
  | getSwap {w : VirtualV} {frame : Nat} {r : Swap} : Acts semAdd (.getSwap frame) w r w
  | setSwap {w : VirtualV} {frame : Nat} {s : Swap} : Acts semAdd (.setSwap frame s) w () w
  | getEntryLO {w : VirtualV} {pte : PtePtr} {r : Word} : Acts semAdd (.getEntryLO pte) w r w
  | setEntryLO {w : VirtualV} {pte : PtePtr} {v : Word} : Acts semAdd (.setEntryLO pte v) w () w

/-- VSEMVIRT of the process `ID` leads from one state to another: it returns, or it
has terminated its caller. -/
abbrev RunsV (S : Setup) (semAdd ID : Word) (w : VirtualV) (x : Option Unit) (w' : VirtualV) :
    Prop :=
  (vSemVirt S semAdd ID).Runs (VirtualV.Acts semAdd) (fun o => o = .terminateProcess) w x w'

/-- The process is registered as waiting on the semaphore. -/
def Avsl.Registered (s : Avsl Vid) (vSemAdd ID : Word) : Prop := (vSemAdd, ID) ∈ s.waiters

/-- What VSEMVIRT is for: the value goes up by one; if it is positive then, nobody is
woken, else a user process that waits on the semaphore is; and if there is none, the
caller is terminated. -/
inductive Delivers (S : Setup) (semAdd : Word) (w : VirtualV) :
    Option Unit → List Word → Prop where
  | positive : 0 < (w.value + 1).toInt → Delivers S semAdd w (some ()) []
  | wakes {k : Word} : (w.value + 1).toInt ≤ 0 → 1 ≤ k.toInt → k.toInt ≤ S.MAXUSERPROC →
      w.avsl.Registered semAdd k → Delivers S semAdd w (some ()) [k]
  | nobody : (w.value + 1).toInt ≤ 0 → (∀ k, ¬ w.avsl.Registered semAdd k) →
      Delivers S semAdd w none []

/-- VSEMVIRT ends, and however it does, it has done what it is for. -/
structure VServed (S : Setup) (semAdd ID : Word) (w : VirtualV) : Prop where
  ends : ∃ x w', RunsV S semAdd ID w x w'
  right : ∀ x w', RunsV S semAdd ID w x w' → w'.stored = (w.value + 1) :: w.stored ∧
    w'.value = w.value + 1 ∧ ∃ l, w'.woken = l ++ w.woken ∧ Delivers S semAdd w x l

/-- The value gets positive; or somebody is registered on the semaphore, and if the
first entry of the list is for it and not the only one, the process of the second is
registered on it as well. -/
def Wakes (semAdd : Word) (w : VirtualV) : Prop :=
  0 < (w.value + 1).toInt ∨ (∃ k, w.avsl.Registered semAdd k) ∧
    ∀ x y rest, w.avsl.waiters = x :: y :: rest → x.1 = semAdd → w.avsl.Registered semAdd y.2

/-- The processes that are inserted are user processes. -/
def UserIDs (S : Setup) (_ : Avsl Vid) (e : AvslEvent) (_ : Avsl Vid) : Prop :=
  match e with
  | .vInsertBlocked _ ID _ => 1 ≤ ID.toInt ∧ ID.toInt ≤ S.MAXUSERPROC
  | .vRemoveBlocked _ _ => True

instance (S : Setup) (s : Avsl Vid) (e : AvslEvent) (s' : Avsl Vid) :
    Decidable (UserIDs S s e s') :=
  match e with
  | .vInsertBlocked _ _ _ => inferInstanceAs (Decidable (_ ∧ _))
  | .vRemoveBlocked _ _ => .isTrue trivial

variable {S : Setup} {s s' : Avsl Vid} {l avail : List Vid} {w w' : VirtualV}
  {semAdd ID answer : Word} {x : Option Unit}

/-- What a removal answers: 0, or the process of an entry, which is for the semaphore
unless the head is missed. No entry is new. -/
theorem Avsl.Inv.answers (semAdd : Word) (h : s.Inv l avail) : ∃ answer s',
    Returns (fun n => vRemoveBlocked n semAdd) s answer s' ∧ s'.waiters ⊆ s.waiters ∧
      ((∃ x y rest, s.waiters = x :: y :: rest ∧ x.1 = semAdd ∧ answer = y.2) ∨
        (∀ x y rest, s.waiters = x :: y :: rest → x.1 ≠ semAdd) ∧
          (s.Registered semAdd answer ∨ (∀ k, ¬ s.Registered semAdd k) ∧ answer = 0)) := by
  by_cases hhead : ∀ x y rest, s.waiters = x :: y :: rest → x.1 ≠ semAdd
  · obtain ⟨answer, s', l', avail', hret, -, hwaiters, hanswer⟩ := h.remove hhead
    refine ⟨answer, s', hret, ?_, Or.inr ⟨hhead, ?_⟩⟩
    · rw [hwaiters]
      exact List.eraseP_subset
    · cases hfind : s.waiters.find? (·.1 = semAdd) with
      | none =>
        rw [hfind] at hanswer
        refine Or.inr ⟨fun k hk => ?_, hanswer.1⟩
        have hother := List.find?_eq_none.mp hfind _ hk
        simp at hother
      | some e =>
        rw [hfind] at hanswer
        left
        obtain rfl := hanswer
        have hsem : e.1 = semAdd := by simpa using List.find?_some hfind
        have hmem := List.mem_of_find?_eq_some hfind
        rw [← hsem]
        exact hmem
  · push Not at hhead
    obtain ⟨x, y, rest, hwait, rfl⟩ := hhead
    obtain ⟨s', l', avail', hret, -, hwaiters⟩ := h.remove_head hwait
    refine ⟨y.2, s', hret, ?_, Or.inl ⟨x, y, rest, hwait, rfl, rfl⟩⟩
    rw [hwaiters, hwait]
    exact List.cons_subset_cons x (List.subset_cons_self y rest)

theorem reachable_userIDs (hs : (avslSystem.restrict (UserIDs S)).Reachable s) :
    ∀ e ∈ s.waiters, 1 ≤ e.2.toInt ∧ e.2.toInt ≤ S.MAXUSERPROC := by
  suffices h : avslSystem.Reachable s ∧
      ∀ e ∈ s.waiters, 1 ≤ e.2.toInt ∧ e.2.toInt ≤ S.MAXUSERPROC from h.2
  refine hs.invariant (I := fun s => avslSystem.Reachable s ∧
    ∀ e ∈ s.waiters, 1 ≤ e.2.toInt ∧ e.2.toInt ≤ S.MAXUSERPROC) (fun s hinit => ⟨.init hinit, ?_⟩)
    fun s e s' ⟨hs, hids⟩ hstep => ⟨hs.step hstep.1, ?_⟩
  · rw [(avslSystem_init hinit).lists.waiters_eq]
    exact fun e he => absurd he List.not_mem_nil
  · obtain ⟨hstep, huser⟩ := hstep
    obtain ⟨l, avail, h⟩ := reachable_avsl hs
    cases e with
    | vInsertBlocked semAdd ID accepted =>
      obtain ⟨s'', -, -, hrun, -, hwaiters⟩ := h.insert semAdd ID
      obtain ⟨-, rfl⟩ := EStateM.Result.ok.inj (hstep.symm.trans hrun)
      rw [hwaiters]
      split
      · intro e he
        rcases List.mem_append.mp he with he | he
        · exact hids e he
        · obtain rfl := List.mem_singleton.mp he
          exact huser
      · exact hids
    | vRemoveBlocked semAdd answer =>
      obtain ⟨_, s'', hret, hsubset, -⟩ := h.answers semAdd
      obtain ⟨-, rfl⟩ := Returns.unique hstep hret
      exact fun e he => hids e (hsubset he)

/-- The state when the value has been stored. -/
def VirtualV.incremented (w : VirtualV) : VirtualV :=
  { w with value := w.value + 1, stored := (w.value + 1) :: w.stored }

/-- How VSEMVIRT runs when the answer of the list is not `FAILURE`. -/
theorem runsV_iff (hret : Returns (fun n => vRemoveBlocked n semAdd) w.avsl answer s')
    (hanswer : answer ≠ FAILURE) : RunsV S semAdd ID w x w' ↔ x = some () ∧
      w' = if 0 < (w.value + 1).toInt then w.incremented
        else { w.incremented with avsl := s', woken := answer :: w.woken } := by
  unfold RunsV vSemVirt
  constructor
  · intro h
    obtain ⟨_, _, ⟨⟩, h⟩ := (runs_perform_bind nofun).mp h
    obtain ⟨_, _, ⟨⟩, h⟩ := (runs_perform_bind nofun).mp h
    obtain ⟨_, _, ⟨⟩, h⟩ := (runs_perform_bind nofun).mp h
    rcases runs_when.mp h with ⟨hle, h⟩ | ⟨hpos, rfl, rfl⟩
    · obtain ⟨_, _, hact, h⟩ := (runs_perform_bind nofun).mp h
      cases hact with
      | vRemoveBlocked hret' =>
        obtain ⟨rfl, rfl⟩ := hret.unique hret'
        rcases h.of_bind with ⟨_, _, hwhen, h⟩ | ⟨-, hwhen⟩
        · rcases runs_when.mp hwhen with ⟨hfail, -⟩ | ⟨-, -, rfl⟩
          · exact absurd hfail hanswer
          · cases h with
            | call hact h =>
              cases hact with
              | uProc_semAdd =>
                obtain ⟨rfl, rfl⟩ := runs_ret.mp h
                exact ⟨rfl, (if_neg (not_lt.mpr hle)).symm⟩
              | verhogen hne => exact absurd rfl (hne _)
            | stop hends => exact absurd hends nofun
        · rcases runs_when.mp hwhen with ⟨hfail, -⟩ | ⟨-, hnone, -⟩
          · exact absurd hfail hanswer
          · exact absurd hnone nofun
    · exact ⟨rfl, (if_pos (by simpa using hpos)).symm⟩
  · rintro ⟨rfl, rfl⟩
    refine .call .loadWord (.call .storeWord (.call .loadWord ?_))
    refine runs_when.mpr ?_
    split
    · exact Or.inr ⟨not_le.mpr ‹_›, rfl, rfl⟩
    · refine Or.inl ⟨not_lt.mp ‹_›, .call (.vRemoveBlocked hret) ?_⟩
      have hwhen : (Prog.when (answer = FAILURE) (meIRL S ID)).Runs (VirtualV.Acts semAdd)
          (fun o => o = .terminateProcess) { w.incremented with avsl := s' } (some ())
          { w.incremented with avsl := s' } := runs_when.mpr (Or.inr ⟨hanswer, rfl, rfl⟩)
      exact hwhen.bind (.call .uProc_semAdd .ret)

/-- Whoever is registered on the semaphore is a user process. -/
theorem vServed_iff (hs : (avslSystem.restrict (UserIDs S)).Reachable w.avsl) :
    VServed S semAdd ID w ↔ Wakes semAdd w := by
  obtain ⟨l, avail, h⟩ := reachable_avsl (System.Reachable.of_restrict hs)
  have hids := reachable_userIDs hs
  obtain ⟨answer, s', hret, -, hanswer⟩ := h.answers semAdd
  have hne : answer ≠ FAILURE := by
    have hmem : answer = 0 ∨ ∃ e ∈ w.avsl.waiters, e.2 = answer := by
      rcases hanswer with ⟨x, y, rest, hwait, -, rfl⟩ | ⟨-, hreg | ⟨-, hzero⟩⟩
      · exact Or.inr ⟨y, by simp [hwait], rfl⟩
      · exact Or.inr ⟨_, hreg, rfl⟩
      · exact Or.inl hzero
    rintro rfl
    rcases hmem with hzero | ⟨e, he, hfail⟩
    · exact absurd hzero (by decide)
    · have hid := (hids e he).1
      rw [hfail] at hid
      exact absurd hid (by decide)
  have hruns : ∀ {x w'}, RunsV S semAdd ID w x w' ↔ _ := runsV_iff hret hne
  have hends : ∃ x w', RunsV S semAdd ID w x w' := ⟨_, _, hruns.mpr ⟨rfl, rfl⟩⟩
  by_cases hpos : 0 < (w.value + 1).toInt
  · refine iff_of_true ⟨hends, fun x w' hrun => ?_⟩ (Or.inl hpos)
    obtain ⟨rfl, rfl⟩ := hruns.mp hrun
    rw [if_pos hpos]
    exact ⟨rfl, rfl, [], rfl, .positive hpos⟩
  · have hserved : VServed S semAdd ID w ↔ w.avsl.Registered semAdd answer := by
      constructor
      · intro hserved
        obtain ⟨-, -, l, hwoken, hdelivers⟩ := hserved.right _ _ (hruns.mpr ⟨rfl, rfl⟩)
        rw [if_neg hpos] at hwoken
        obtain rfl : [answer] = l := List.append_cancel_right hwoken
        cases hdelivers with
        | wakes _ _ _ hreg => exact hreg
      · intro hreg
        refine ⟨hends, fun x w' hrun => ?_⟩
        obtain ⟨rfl, rfl⟩ := hruns.mp hrun
        obtain ⟨hlo, hhi⟩ := hids _ hreg
        rw [if_neg hpos]
        exact ⟨rfl, rfl, [answer], rfl, .wakes (not_lt.mp hpos) hlo hhi hreg⟩
    rw [hserved]
    rcases hanswer with ⟨x, y, rest, hwait, rfl, rfl⟩ | ⟨hhead, hanswer⟩
    · constructor
      · intro hreg
        refine Or.inr ⟨⟨_, hreg⟩, fun x' y' rest' hwait' _ => ?_⟩
        rw [hwait] at hwait'
        obtain ⟨-, rfl, -⟩ : x = x' ∧ y = y' ∧ rest = rest' := by simpa using hwait'
        exact hreg
      · rintro (hpos' | ⟨-, hall⟩)
        · exact absurd hpos' hpos
        · exact hall x y rest hwait rfl
    · constructor
      · exact fun hreg => Or.inr ⟨⟨_, hreg⟩, fun x y rest hwait hx => absurd hx (hhead x y rest hwait)⟩
      · rintro (hpos' | ⟨⟨k, hk⟩, -⟩)
        · exact absurd hpos' hpos
        · exact hanswer.resolve_right fun hnone => hnone.1 k hk

/-- Process 1 waits on the semaphore, and its value is -1. -/
theorem vServed_iff_one : ∃ s : Avsl Vid, s.waiters = [(0x80000000, 1)] ∧
    (VServed .small 0x80000000 2 ⟨-1, [], s, []⟩ ↔ Wakes 0x80000000 ⟨-1, [], s, []⟩) := by
  have hreach : (avslSystem.restrict (UserIDs .small)).Reachable
      ((avslScript.restrict (UserIDs .small)).play avslStart [.vInsertBlocked 0x80000000 1 true]) :=
    avslScript_follows.restrict.reachable (.init avslStart_init) (by decide +kernel)
  exact ⟨_, by decide +kernel, vServed_iff hreach⟩

/-- Nobody waits, and the value is -1: a V is made on the private semaphore of
process 0. -/
theorem not_always_vServed : ¬ ∀ (S : Setup) (semAdd ID : Word) (w : VirtualV),
    (avslSystem.restrict (UserIDs S)).Reachable w.avsl → VServed S semAdd ID w := by
  intro hall
  have hserved := hall .small 0x80000000 1 ⟨-1, [], avslStart, []⟩ (.init avslStart_init)
  have hret : Returns (fun n => vRemoveBlocked n 0x80000000) avslStart 0 avslStart :=
    vRemoveBlocked_none (avslSystem_init avslStart_init).lists fun x hx =>
      absurd hx List.not_mem_nil
  obtain ⟨-, -, l, hwoken, hdelivers⟩ := hserved.right _ _
    ((runsV_iff (w := ⟨-1, [], avslStart, []⟩) hret (by decide)).mpr ⟨rfl, rfl⟩)
  have hle : ¬ 0 < ((-1 : Word) + 1).toInt := by decide
  rw [if_neg hle] at hwoken
  obtain rfl : [0] = l := by simpa [VirtualV.incremented] using hwoken
  cases hdelivers with
  | wakes _ hlo _ _ => exact absurd hlo (by decide)

end Kaya
