import Kaya.Exec.Points
import Kaya.Phase3.LoadPoints

open Exec

namespace Kaya

variable {β : Type} {S : Setup} {c c' : UserPool β} {g : Word → Point} {ID : Word}
  {e : Happening Word UserEntry Op}

/-- How processes enter their boot code and, later, the pager for pages of `kUseg2`. -/
def LoadEntry : UserEntry → Prop
  | .boot _ => True
  | .tlb st => MissingPage st ∧ segmentOf st.s_asid = 2
  | .store _ => True
  | _ => False

/-- Processes that load their tapes and then run in `kUseg2`, with devices that are
ready. -/
def loadThreads (β : Type) (S : Setup) : Threads Word Sem UserEntry Op Op.Answer (Phase3 β) :=
  { userThreads (β := β) S with
    enters := fun ID e fs s s' => UserEnters S ID e fs s s' ∧ LoadEntry e
    act := fun ID o x r y => Acts S ID o x r y ∧ DevicesReady o r }

def entryPoint : UserEntry → Point
  | .boot _ => .boot
  | .tlb st => .fault st.s_asid
  | _ => .rest

def loadPoints (β : Type) (S : Setup) : (loadThreads β S).Points Point where
  contract := pointContract S
  rest := .rest
  entry := entryPoint
  held := Point.held
  awaited := Point.awaited
  held_rest := rfl
  passeren h hkind := by
    obtain ⟨hheld, hawaited, hmutex⟩ := Moves.passeren h hkind
    exact ⟨hheld.trans (if_pos hmutex).symm, hawaited⟩
  verhogen {t g g' o r s} h hkind := by
    obtain ⟨hheld, hmutex⟩ := Moves.verhogen h hkind
    rw [hheld]
    exact ((if_pos hmutex).trans (List.erase_cons_head s _)).symm
  other := Moves.other
  lasting hpre := by
    rcases hpre with rfl | ⟨r, g', hmove⟩
    · simp [loadThreads, userThreads, opKind]
    · exact ⟨hmove.lasting.1, hmove.lasting.2.1⟩
  answered {t g o r} hpre hact := by
    rcases hpre with rfl | ⟨r', g', hmove⟩
    · exact r.elim
    · refine hmove.answered fun hkind => ?_
      obtain ⟨x, y, -, hready⟩ := hact hkind
      exact hready

/-- Code begins only where no other code of the process runs. -/
theorem LoadEntry.idle (hat : (loadPoints β S).At g c) {entry : UserEntry} {s' : Phase3 β}
    (henters : (loadThreads β S).enters ID entry (c.stack ID) c.shared s') :
    c.stack ID = [] ∧ (loadPoints β S).Ends ID (entryPoint entry) (userProgram S ID entry) := by
  obtain ⟨henter, hload⟩ := henters
  cases entry with
  | boot n =>
    generalize c.stack ID = fs at henter
    cases henter
    exact ⟨rfl, leads_uProcInit⟩
  | tlb st =>
    refine ⟨?_, leads_vmMemHandler hload.1 hload.2⟩
    cases henter with
    | tlb htrap =>
      rcases htrap with huser | ⟨o, k, held, fs, hstack, haccess⟩
      · exact huser.2.1
      · obtain ⟨-, -, hpre, -⟩ := hat.call hstack
        rcases hpre with rfl | ⟨r, g', hmove⟩
        · exact absurd haccess (by simp [Op.isAccess])
        · exact absurd (hmove.lasting.2.2.symm.trans haccess) (by simp)
  | store a =>
    refine ⟨?_, rfl⟩
    cases henter with
    | store huser _ _ => exact huser.2.1
  | _ => exact absurd hload (by simp [LoadEntry])

/-- The code that begins keeps the mutexes. -/
theorem LoadEntry.disciplined {entry : UserEntry} {s s' : Phase3 β}
    (henters : (loadThreads β S).enters ID entry [] s s') :
    (loadThreads β S).Disciplined steady [] [] (userProgram S ID entry) := by
  obtain ⟨henter, hload⟩ := henters
  cases entry with
  | boot n =>
    cases henter with
    | boot hID _ => exact Threads.locks_of_orders (keeps_uProcInit (β := β) hID)
  | tlb st =>
    refine Threads.locks_of_orders (keeps_vmMemHandler (β := β) (fun b hb => ?_) fun hother => ?_)
    · exact absurd hb List.not_mem_nil
    · exact absurd hload.1 hother
  | store a => exact Threads.locks_of_orders (keeps_pure (β := β))
  | _ => exact absurd hload (by simp [LoadEntry])

/-- One step of one process. -/
theorem load_step (hlocked : (loadThreads β S).Locked steady c) (hat : (loadPoints β S).At g c)
    (hstep : (loadThreads β S).Step c e c') :
    (loadThreads β S).Locked steady c' ∧
      ∃ g', (loadPoints β S).At g' c' ∧ (loadPoints β S).Turn g c c' e g' := by
  refine ⟨hlocked.step hstep ?_, hat.step hstep fun ID entry s' henters => ?_⟩
  · cases hstep with
    | @enter t entry s' _ henters =>
      obtain ⟨hempty, -⟩ := LoadEntry.idle hat henters
      rw [hempty] at henters
      change (loadThreads β S).Disciplined steady (taken (c.stack t)) [] _
      rw [hempty]
      exact LoadEntry.disciplined henters
    | @other t o _ _ _ _ _ _ _ hstack hkind hact =>
      intro hother s hs
      obtain ⟨-, -, hpre, -⟩ := hat.call hstack
      have horderly : Orderly S c (.perform t o) c := by
        rcases hpre with rfl | ⟨r, g', hmove⟩
        · trivial
        · generalize g t = x at hmove
          cases hmove <;> trivial
      exact congrFun (Acts.value_eq hact.1 hkind horderly) s
    | leave _ _ => trivial
    | passeren _ _ hkind => exact fun hother => absurd (hkind.symm.trans hother) (by simp)
    | verhogen _ _ hkind => exact fun hother => absurd (hkind.symm.trans hother) (by simp)
    | exit _ _ hkind => exact fun hother => absurd (hkind.symm.trans hother) (by simp)
    | halt _ _ hkind => exact fun hother => absurd (hkind.symm.trans hother) (by simp)
  · obtain ⟨hempty, hends⟩ := LoadEntry.idle hat henters
    refine ⟨hempty, ?_, hends⟩
    cases entry with
    | daemon _ | call _ _ | program => exact absurd henters.2 (by simp [LoadEntry])
    | boot _ | tlb _ | store _ => rfl

/-- A run of user processes, the last event first. -/
abbrev LoadTrace (β : Type) : Type := List (UserPool β × Happening Word UserEntry Op)

/-- No process has run yet: no page is in a frame, and the tapes have from one block to
one less than the pages of a segment. -/
structure Unloaded (S : Setup) (tapes : Word → List β) (c : UserPool β) : Prop where
  atRest : AtRest c
  started : ∀ ID, c.shared.started ID = false
  frames : ∀ i < S.SWAPSIZE, ¬ c.shared.Occupied i
  entries : ∀ p, ¬ c.shared.IsValid p
  tape : c.shared.tape = tapes
  blocks : ∀ ID, S.IsProcess ID →
    1 ≤ (tapes ID).length ∧ (tapes ID).length ≤ KUSEGSIZE - 1

/-- Loaders and processes that run in `kUseg2`, in any order. -/
def loadSystem (S : Setup) (tapes : Word → List β) :
    System (UserPool β) (Happening Word UserEntry Op) :=
  (loadThreads β S).system (Unloaded S tapes)

/-- The page of a process has been entered into its page table. -/
def BroughtIn (l : LoadTrace β) (ID page : Word) : Prop :=
  ∃ y ∈ l, ∃ t w, y.2 = .perform t (.setEntryLO (.uProc_pte ID page) w) ∧ w &&& VALID = VALID

/-- The process has entered `uProcInit` and not left it. -/
def Booting : LoadTrace β → Word → Prop
  | [], _ => False
  | (_, .enter t e) :: l, ID => if t = ID then ∃ n, e = .boot n else Booting l ID
  | (_, .leave t) :: l, ID => t ≠ ID ∧ Booting l ID
  | (_, .perform _ _) :: l, ID => Booting l ID

/-- What a step of a run has to do with the tapes. -/
structure LoadsRight (tapes : Word → List β) (l : LoadTrace β) (c : UserPool β)
    (e : Happening Word UserEntry Op) (c' : UserPool β) : Prop where
  /-- The first time that a page is brought in, its frame has the block of the tape. -/
  delivers : ∀ t a page w x, e = .perform t (.setEntryLO (.uProc_pte a page) w) →
    w &&& VALID = VALID → ¬ BroughtIn l a page → (tapes a)[page.toNat]? = some x →
    c'.shared.page (frameNumber w) = x
  /-- A loader changes blocks of its own process only. -/
  keeps : ∀ t o cylinder head sector, e = .perform t o → Booting l t →
    c'.shared.block cylinder head sector ≠ c.shared.block cylinder head sector →
    head = 0 ∧ sector = t - 1

end Kaya
