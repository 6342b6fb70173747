import Kaya.Phase3.Translation

open Exec

namespace Kaya

open Phase3

variable {β : Type} {S : Setup} {s s' : Phase3 β} {ID a page : Word} {st : State}
  {store ready : Bool} {c c' c₁ c₂ : Paging β} {e : PagingEvent β} {l : List (PagingEvent β × Paging β)}

/-- What happens when user processes find their pages by the tables that `test` has set up
and the pager goes on with. -/
inductive Paging.HardStep (S : Setup) : Paging β → PagingEvent β → Paging β → Prop where
  | fault {c : Paging β} {ID : Word} {st : State} {store : Bool} : c.CanRun S ID →
      MissingPage st → SEG2 ≤ st.s_asid →
      (tables S c.shared).access ID st.s_asid store = .invalid →
      HardStep S c (.fault ID st) { c with pending := Function.update c.pending ID (some st) }
  | serve {c : Paging β} {ID : Word} {st : State} {ready : Bool} {s' : Phase3 β} :
      c.pending ID = some st → RunsAlone S ready ID (vmMemHandler S st ID) c.shared (some ()) s' →
      HardStep S c (.serve ID ready)
        { c with shared := s', pending := Function.update c.pending ID none }
  | store {c : Paging β} {ID a frame : Word} {x : β} : c.CanRun S ID → SEG2 ≤ a →
      (tables S c.shared).access ID a true = .page frame →
      HardStep S c (.store ID a x) { c with shared := c.shared.setPage frame x }
  | terminate {c : Paging β} {ID : Word} {ready : Bool} {s' : Phase3 β} : c.CanRun S ID →
      RunsAlone S ready ID (meIRL S ID) c.shared none s' →
      HardStep S c (.terminate ID)
        { c with shared := s', ended := Function.update c.ended ID true }

/-- The swap pool and the page tables are as `test` leaves them. -/
structure Paging.Booted (S : Setup) (c : Paging β) : Prop where
  frames : ∀ i < S.SWAPSIZE, c.shared.swapPool i = (Globals.booted S).swapPool i
  entries : ∀ p, c.shared.entryLO p = (Globals.booted S).entryLO p
  pending : ∀ ID, c.pending ID = none

def hardSystem (β : Type) (S : Setup) : System (Paging β) (PagingEvent β) where
  init := Paging.Booted S
  step := Paging.HardStep S

/-- Every step is one of the model of the pager. -/
theorem Paging.HardStep.step (h : Paging.HardStep S c e c') : Paging.Step S c e c' := by
  cases h with
  | fault hrun hmissing hlo haccess =>
    exact .fault hrun hmissing hlo (access_invalid hrun.process hlo haccess).2
  | serve hpending hruns => exact .serve hpending hruns
  | store hrun hlo haccess =>
    obtain ⟨-, hmapped, rfl⟩ := access_page hrun.process hlo haccess
    exact .store hrun hlo hmapped
  | terminate hrun hruns => exact .terminate hrun hruns

/-- `test` maps no page. -/
theorem booted_not_valid (p : PtePtr) : ¬ (Globals.booted S).entryLO p &&& VALID = VALID := by
  obtain ⟨g, hset, hseg3, hzero, -⟩ := booted_set (S := S)
  cases p with
  | null => exact (by decide : ¬ (0 : Word) &&& VALID = VALID)
  | kuSeg3 page =>
    rw [Globals.entryLO, hset.kuSeg3, hseg3]
    simp only [setupKuSeg3, fill_apply]
    split
    · exact (by decide : ¬ (ALLOFF ||| GLOBAL ||| DIRTY) &&& VALID = VALID)
    · exact (by decide : ¬ (0 : Word) &&& VALID = VALID)
  | uProc_pte ID page =>
    rw [Globals.entryLO, hset.uProc_pte, hzero]
    have hlisted : ∀ j, ((fill KUSEGSIZE (fun j => ⟨entryPage (0x80000 + j) |||
        (BitVec.ofNat 32 ((ID - 1).toNat + 1) <<< 6), ALLOFF ||| DIRTY⟩)
        PageTable.zero.pteTable) j : PteEntry).entryLO &&& VALID ≠ VALID := by
      intro j
      rw [fill_apply]
      split
      · exact (by decide : ¬ (ALLOFF ||| DIRTY) &&& VALID = VALID)
      · exact (by decide : ¬ (0 : Word) &&& VALID = VALID)
    split
    · simp only [setupUProcPte, Function.update_apply]
      split
      · exact hlisted _
      · exact hlisted _
    · exact (by decide : ¬ (0 : Word) &&& VALID = VALID)

theorem booted_swapPool {i : Nat} (hi : i < S.SWAPSIZE) :
    (Globals.booted S).swapPool i = ⟨-1, 0, 0, .null⟩ := by
  obtain ⟨g, hset, -, -, hfree⟩ := booted_set (S := S)
  rw [hset.swapPool, hfree i hi]

theorem Paging.Booted.cold (h : c.Booted S) : c.Cold S := by
  refine ⟨fun i hi hoccupied => ?_, fun p hvalid => ?_, h.pending⟩
  · rw [Occupied, h.frames i hi, booted_swapPool hi] at hoccupied
    exact hoccupied rfl
  · rw [IsValid, h.entries] at hvalid
    exact booted_not_valid p hvalid

/-- Two processes that share a frame, when `test` has set up their tables. -/
def bootedPaging (x : β) : Paging β :=
  { coldPaging x with
    shared := { (coldPaging x).shared with
      kuSeg3 := fun page => (Globals.booted .small).entryLO (.kuSeg3 page)
      uProc_pte := fun ID page => (Globals.booted .small).entryLO (.uProc_pte ID page) } }

theorem bootedPaging_booted (x : β) : (bootedPaging x).Booted .small := by
  refine ⟨fun i hi => (booted_swapPool hi).symm, fun p => ?_, fun _ => rfl⟩
  cases p <;> rfl

/-- What the processor finds in the tables for an event. -/
def PagingEvent.Found (S : Setup) (c : Paging β) : PagingEvent β → Prop
  | .fault ID st => (tables S c.shared).access ID st.s_asid true = .invalid
  | .store ID a _ => (tables S c.shared).access ID a true = .page (c.shared.pageAt ID a)
  | .serve _ _ => True
  | .terminate _ => True

instance (c : Paging β) : ∀ e : PagingEvent β, Decidable (e.Found S c)
  | .fault _ _ => inferInstanceAs (Decidable (_ = _))
  | .store _ _ _ => inferInstanceAs (Decidable (_ = _))
  | .serve _ _ => .isTrue trivial
  | .terminate _ => .isTrue trivial

/-- Runs in which the pages are found by the tables. -/
abbrev hardScript (β : Type) (S : Setup) : Script (Paging β) (PagingEvent β) (PagingEvent β) :=
  (pagingScript β S).restrict fun c e _ => e.Found S c

theorem hardScript_follows : (hardScript β S).Follows (hardSystem β S) := by
  intro c e hfits
  obtain ⟨hstep, hfound⟩ := (pagingScript_follows (β := β) (S := S)).restrict c e hfits
  generalize (hardScript β S).next c e = c' at hstep hfound
  cases hstep with
  | fault hrun hmissing hlo _ => exact .fault hrun hmissing hlo hfound
  | serve hpending hruns => exact .serve hpending hruns
  | store hrun hlo _ => exact .store hrun hlo hfound
  | terminate hrun hruns => exact .terminate hrun hruns

/-! Faults that are cured -/

/-- The pages that processes wait for are listed in their tables. -/
def Paging.Expects (c : Paging β) : Prop :=
  ∀ ID st, c.pending ID = some st → SEG2 ≤ st.s_asid ∧ Listed st.s_asid

theorem Paging.Expects.step (h : c.Expects) (hstep : Paging.HardStep S c e c') : c'.Expects := by
  cases hstep with
  | @fault ID st store hrun hmissing hlo haccess =>
    intro ID' st' hst'
    by_cases hsame : ID' = ID
    · subst hsame
      obtain rfl : st = st' := by simpa using hst'
      exact ⟨hlo, (access_invalid hrun.process hlo haccess).1.1⟩
    · exact h ID' st' (by simpa [hsame] using hst')
  | @serve ID st ready s' hpending hruns =>
    intro ID' st' hst'
    have hne : ID' ≠ ID := by
      rintro rfl
      simp at hst'
    exact h ID' st' (by simpa [hne] using hst')
  | store _ _ _ => exact h
  | terminate _ _ => exact h

theorem reachable_faults (hc : (hardSystem β S).Reachable c) : c.Faults S ∧ c.Expects := by
  refine hc.invariant (I := fun c => c.Faults S ∧ c.Expects) (fun c hbooted => ?_)
    fun c e c' h hstep => ⟨h.1.step hstep.step, h.2.step hstep⟩
  have hnone : ∀ ID st, c.pending ID ≠ some st := fun ID st hst =>
    absurd ((hbooted.pending ID).symm.trans hst) (by simp)
  exact ⟨fun ID st hst => absurd hst (hnone ID st), fun ID st hst => absurd hst (hnone ID st)⟩

/-- The flags of an entry that consists of the address of a page and flags. -/
theorem flag_frameEntry {flag : Word} {i : Nat}
    (hthree : segmentOf a = 3 → (VALID ||| DIRTY ||| GLOBAL) &&& flag = flag)
    (hother : segmentOf a ≠ 3 → (VALID ||| DIRTY) &&& flag = flag) (hflag : 0xFFF &&& flag = flag) :
    frameEntry S i a &&& flag = flag := by
  have hlow : swapAddress S i &&& flag = 0#32 := by
    rw [← hflag, ← BitVec.and_assoc, swapAddress_low, BitVec.zero_and]
  unfold frameEntry
  split
  · rename_i hseg
    rw [BitVec.or_assoc, BitVec.or_assoc, BitVec.and_or_distrib_right, hlow, BitVec.zero_or,
      ← BitVec.or_assoc, hthree hseg]
  · rename_i hne
    rw [BitVec.or_assoc, BitVec.and_or_distrib_right, hlow, BitVec.zero_or, hother hne]

/-- Once a fault has been served, the access that raised it leads to the frame that has been
filled for it. -/
theorem Paging.HardStep.cured (hID : S.IsProcess ID) (hmissing : MissingPage st)
    (hlo : SEG2 ≤ st.s_asid) (hlisted : Listed st.s_asid) (hpending : c.pending ID = some st)
    (hserve : Paging.HardStep S c (.serve ID ready) c') (store : Bool) :
    (tables S c'.shared).access ID st.s_asid store =
      .page (swapAddress S (c.shared.nextFrame S)) := by
  cases hserve with
  | @serve _ st' _ s' hpending' hruns =>
    obtain rfl : st = st' := Option.some.inj (hpending.symm.trans hpending')
    have hentry : s'.entryLO (pteOf ID st.s_asid) = frameEntry S (c.shared.nextFrame S) st.s_asid := by
      rw [(runs_served hmissing hruns).entryLO, if_pos rfl]
    have hfinds : Finds s' st.s_asid := by
      refine ⟨hlisted, fun hthree => ?_⟩
      have hseg := segmentOf_eq_three.mpr hthree
      have hshared : s'.kuSeg3 (pageOf st.s_asid) = s'.entryLO (pteOf ID st.s_asid) := by
        rw [pteOf, if_pos hseg]
        rfl
      rw [hshared, hentry]
      exact flag_frameEntry (fun _ => rfl) (fun hne => absurd hseg hne) rfl
    have hdirty : s'.entryLO (pteOf ID st.s_asid) &&& DIRTY = DIRTY := by
      rw [hentry]
      exact flag_frameEntry (fun _ => rfl) (fun _ => rfl) rfl
    have hvalid : s'.entryLO (pteOf ID st.s_asid) &&& VALID = VALID := by
      rw [hentry]
      exact valid_frameEntry
    rcases access_user (s := s') store hID hlo with ⟨-, haccess⟩ | ⟨hnot, -⟩
    · rw [haccess, leads, PteEntry.access, if_neg (not_not.mpr hvalid),
        if_neg fun hclean => hclean.2 hdirty, ← frameNumber_frameEntry (a := st.s_asid), ← hentry]
      rfl
    · exact absurd hfinds hnot

/-- The handler cures every fault: in every run, once the fault of a process has been
served, the access that raised it, load or store, leads to the frame that has been filled
for it, even if the page was shared and has been evicted while the process waited. -/
theorem fault_cured (hc : (hardSystem β S).Reachable c) (hpending : c.pending ID = some st)
    (hserve : (hardSystem β S).step c (.serve ID ready) c') :
    ∀ store, (tables S c'.shared).access ID st.s_asid store =
      .page (swapAddress S (c.shared.nextFrame S)) := by
  obtain ⟨hfaults, hexpects⟩ := reachable_faults hc
  obtain ⟨hID, hmissing⟩ := hfaults ID st hpending
  obtain ⟨hlo, hlisted⟩ := hexpects ID st hpending
  exact hserve.cured hID hmissing hlo hlisted hpending

/-- Both processes fault on the same page of `kUseg3`. While the second one waits, the page
is brought in for the first one, and evicted when that one faults on a page of its own. -/
def waitingRun : List (PagingEvent Unit) :=
  [.fault 1 sharedFault, .fault 2 sharedFault, .serve 1 true, .fault 1 firstFault, .serve 1 true]

def waitingPaging : Paging Unit := (hardScript Unit .small).play (bootedPaging ()) waitingRun

def curedPaging : Paging Unit := (hardScript Unit .small).next waitingPaging (.serve 2 true)

theorem waitingPaging_reachable : (hardSystem Unit .small).Reachable waitingPaging :=
  hardScript_follows.reachable (.init (bootedPaging_booted ())) (by decide +kernel)

theorem fault_cured_small :
    (tables .small waitingPaging.shared).access 2 SEG3 true = .PTMs ∧
    (tables .small curedPaging.shared).access 2 SEG3 true = .page (swapAddress .small 0) := by
  have hasid : (waitingPaging.pending 2).map State.s_asid = some SEG3 := by decide +kernel
  obtain ⟨st, hpending, hst⟩ := Option.map_eq_some_iff.mp hasid
  have hserve : (hardSystem Unit .small).step waitingPaging (.serve 2 true) curedPaging :=
    hardScript_follows waitingPaging (.serve 2 true) (by decide +kernel)
  have hcured := fault_cured waitingPaging_reachable hpending hserve true
  have hnext : waitingPaging.shared.nextFrame .small = 0 := by decide +kernel
  rw [hst, hnext] at hcured
  exact ⟨by decide +kernel, hcured⟩

/-! Memory as the processes see it -/

/-- The model of the pager follows the processor step by step, and so does a memory of its
own for every process. -/
theorem access_simulation : Simulation ((hardSystem β S).restrict PrivateReady)
    (memory (Word × Word) β) (fun _ e _ => storeOf e) (Implements S) where
  init c hbooted := paging_simulation.init c hbooted.cold
  step c e c' m hstep h := paging_simulation.step c e c' m ⟨hstep.1.step, hstep.2⟩ h

/-- With the tables that `test` has set up, the processor leads every process to what the
process has stored to the page last, and to the block of the disk if that is nothing: in
every run in which nobody accesses `kUseg3` and the disk is ready, and for loads as well
as for stores. -/
theorem access_memory (hbooted : c.Booted S)
    (hpath : ((hardSystem β S).restrict PrivateReady).Path c l c') :
    ∃ m, (memory (Word × Word) β).Does (backing c.shared)
        (observed (fun _ e _ => storeOf e) c l) m ∧
      ∀ ID a store frame, c'.CanRun S ID → SEG2 ≤ a →
        (tables S c'.shared).access ID a store = .page frame →
        c'.shared.page frame = m (ID, pageOf a) := by
  obtain ⟨m, hdoes, himplements⟩ := access_simulation.path hpath hbooted.cold.implements
  refine ⟨m, hdoes, fun ID a store frame hrun hlo haccess => ?_⟩
  obtain ⟨-, hmapped, rfl⟩ := access_page hrun.process hlo haccess
  obtain ⟨hvalid, hpage⟩ := himplements.pages.contents_eq hlo hmapped
  rw [hpage, ← himplements.contents ID (pageOf a) hrun.live]
  exact (if_pos hvalid).symm

/-- Two processes take the only frame in turns. The processor leads the first one to its page
with what it has stored there. -/
theorem access_memory_small : ∃ (c : Paging Bool) (m : Word × Word → Bool),
    (memory (Word × Word) Bool).Does (backing (bootedPaging false).shared)
      [((1, pageOf SEG2), true), ((2, pageOf SEG2), false)] m ∧
    (tables .small c.shared).access 1 SEG2 false = .page (swapAddress .small 0) ∧
    c.shared.page (swapAddress .small 0) = m (1, pageOf SEG2) ∧
    c.shared.page (swapAddress .small 0) = true := by
  have hpath : ((hardSystem Bool .small).restrict PrivateReady).Path (bootedPaging false)
      (((hardScript Bool .small).restrict PrivateReady).events (bootedPaging false) sharingRun)
      (((hardScript Bool .small).restrict PrivateReady).play (bootedPaging false) sharingRun) :=
    hardScript_follows.restrict.path (by decide +kernel)
  have hstores : observed (fun _ e _ => storeOf e) (bootedPaging false)
      (((hardScript Bool .small).restrict PrivateReady).events (bootedPaging false) sharingRun) =
      [((1, pageOf SEG2), true), ((2, pageOf SEG2), false)] := by
    decide +kernel
  obtain ⟨m, hdoes, hpages⟩ := access_memory (bootedPaging_booted false) hpath
  rw [hstores] at hdoes
  exact ⟨_, m, hdoes, by decide +kernel,
    hpages 1 SEG2 false _ (by decide +kernel) (by decide) (by decide +kernel), by decide +kernel⟩

/-! Pages of `kUseg3` that are evicted -/

/-- The entry of a page of `kUseg3` is no longer for everybody, and nobody waits for the
page. -/
structure Paging.Lost (c : Paging β) (page : Word) : Prop where
  entry : c.shared.kuSeg3 page &&& GLOBAL ≠ GLOBAL
  pending : ∀ ID st, c.pending ID = some st → pteOf ID st.s_asid ≠ .kuSeg3 page

theorem Paging.Lost.access (h : c.Lost page) (hID : S.IsProcess ID) (hlo : SEG3 ≤ a)
    (hpage : pageOf a = page) : (tables S c.shared).access ID a store = .PTMs := by
  rw [access_kuseg3 hID hlo, hpage]
  exact if_neg fun hfound => h.entry hfound.2

/-- A lost page stays lost. -/
theorem Paging.Lost.step (h : c.Lost page) (hfaults : c.Faults S)
    (hstep : Paging.HardStep S c e c') : c'.Lost page := by
  cases hstep with
  | @fault ID st store hrun hmissing hlo haccess =>
    refine ⟨h.entry, fun ID' st' hst' hpte => ?_⟩
    by_cases hsame : ID' = ID
    · -- the processor does not find the entry, so it raises another trap
      subst hsame
      obtain rfl : st = st' := by simpa using hst'
      have hthree : segmentOf st.s_asid = 3 := by
        by_contra hne
        exact absurd ((pteOf_private hne).symm.trans hpte) (by simp)
      rw [pteOf, if_pos hthree] at hpte
      have hlost : (tables S c.shared).access ID' st.s_asid store = .PTMs :=
        h.access hrun.process (segmentOf_eq_three.mp hthree) (PtePtr.kuSeg3.inj hpte)
      exact absurd (haccess.symm.trans hlost) (by simp)
    · exact h.pending ID' st' (by simpa [hsame] using hst') hpte
  | @serve ID st ready s' hpending hruns =>
    have hserved := runs_served (hfaults ID st hpending).2 hruns
    have hother : PtePtr.kuSeg3 page ≠ pteOf ID st.s_asid := (h.pending ID st hpending).symm
    have hentry := hserved.entryLO (.kuSeg3 page)
    rw [if_neg hother] at hentry
    refine ⟨fun hglobal => ?_, fun ID' st' hst' => ?_⟩
    · have hglobal : s'.entryLO (.kuSeg3 page) &&& GLOBAL = GLOBAL := hglobal
      rw [hentry] at hglobal
      split at hglobal
      · exact absurd hglobal (by decide)
      · exact h.entry hglobal
    · have hne : ID' ≠ ID := by
        rintro rfl
        simp at hst'
      exact h.pending ID' st' (by simpa [hne] using hst')
  | store _ _ _ => exact ⟨h.entry, h.pending⟩
  | terminate _ hruns =>
    have hothers := (runs_meIRL hruns).others
    refine ⟨?_, h.pending⟩
    rw [hothers]
    exact h.entry

theorem Paging.Lost.path (h : c.Lost page) (hfaults : c.Faults S)
    (hpath : (hardSystem β S).Path c l c') : c'.Lost page := by
  induction hpath with
  | nil => exact h
  | cons hstep _ ih => exact ih (h.step hfaults hstep) (hfaults.step hstep.step)

/-- Evicting a page of `kUseg3` clears its whole entry, the mark that it is for everybody
included. Unless a fault on it has been waiting, no process ever finds the page again: in
every run after that, every access to it is a page table miss, for which the handler ends
the process. -/
theorem evicted_lost (hc : (hardSystem β S).Reachable c)
    (hserve : (hardSystem β S).step c (.serve ID ready) c₁)
    (hholds : c.shared.Holds (c.shared.nextFrame S) (.kuSeg3 page))
    (hnobody : ∀ ID st, c.pending ID = some st → pteOf ID st.s_asid ≠ .kuSeg3 page)
    (hpath : (hardSystem β S).Path c₁ l c₂) :
    ∀ ID a store, S.IsProcess ID → SEG3 ≤ a → pageOf a = page →
      (tables S c₂.shared).access ID a store = .PTMs := by
  obtain ⟨hfaults, -⟩ := reachable_faults hc
  have hlost : c₁.Lost page := by
    cases hserve with
    | @serve _ st _ s' hpending hruns =>
      have hserved := runs_served (hfaults ID st hpending).2 hruns
      have hother : PtePtr.kuSeg3 page ≠ pteOf ID st.s_asid := (hnobody ID st hpending).symm
      refine ⟨fun hglobal => ?_, fun ID' st' hst' => ?_⟩
      · have hglobal : s'.entryLO (.kuSeg3 page) &&& GLOBAL = GLOBAL := hglobal
        rw [hserved.entryLO, if_neg hother, if_pos hholds] at hglobal
        exact absurd hglobal (by decide)
      · have hne : ID' ≠ ID := by
          rintro rfl
          simp at hst'
        exact hnobody ID' st' (by simpa [hne] using hst')
  intro ID' a store hID hlo hpage
  exact (hlost.path (hfaults.step hserve.step) hpath).access hID hlo hpage

/-- The first process has used a page of `kUseg3`, and waits for one of its own, for which
there is only the same frame. -/
def losingPaging : Paging Unit := (hardScript Unit .small).play (bootedPaging ())
  [.fault 1 sharedFault, .serve 1 true, .fault 1 firstFault]

/-- Then the shared page is lost for all. -/
theorem evicted_lost_small : ∃ s : Phase3 Unit, ∀ ID a store, Setup.small.IsProcess ID → SEG3 ≤ a →
    pageOf a = pageOf SEG3 → (tables .small s).access ID a store = .PTMs := by
  have hc : (hardSystem Unit .small).Reachable losingPaging :=
    hardScript_follows.reachable (.init (bootedPaging_booted ())) (by decide +kernel)
  have hserve := hardScript_follows (S := .small) losingPaging (.serve 1 true) (by decide +kernel)
  have hholds : losingPaging.shared.Holds (losingPaging.shared.nextFrame .small)
      (.kuSeg3 (pageOf SEG3)) := by
    decide +kernel
  refine ⟨_, evicted_lost hc hserve hholds (fun ID st hst => ?_) .nil⟩
  have hpending : losingPaging.pending = Function.update (Function.update (Function.update
      (fun _ => none) 1 (some sharedFault)) 1 none) 1 (some firstFault) := rfl
  rw [hpending, Function.update_idem, Function.update_idem, Function.update_apply] at hst
  split at hst
  · obtain rfl := Option.some.inj hst
    rename_i hID
    rw [hID]
    decide
  · simp at hst

end Kaya
