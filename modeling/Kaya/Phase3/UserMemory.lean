import Kaya.Exec.Refine
import Kaya.Phase3.FrameContents
import Kaya.Phase3.Loaded

open Exec Prog

namespace Kaya

open Phase3

variable {β : Type} {S : Setup} {s s' : Phase3 β} {ID page : Word} {a : Word} {st : State}
  {ready : Bool} {i j : Nat} {c c' : Paging β} {e : PagingEvent β}

/-- No process accesses `kUseg3`. -/
def Private (_ : Paging β) (e : PagingEvent β) (_ : Paging β) : Prop :=
  match e with
  | .fault _ st => segmentOf st.s_asid ≠ 3
  | _ => True

/-- No process accesses `kUseg3`, and the disk is ready after every command. -/
def PrivateReady (c : Paging β) (e : PagingEvent β) (c' : Paging β) : Prop :=
  Private c e c' ∧ ∀ ID, e ≠ .serve ID false

instance (c : Paging β) (e : PagingEvent β) (c' : Paging β) : Decidable (Private c e c') :=
  match e with
  | .fault _ st => inferInstanceAs (Decidable (segmentOf st.s_asid ≠ 3))
  | .serve _ _ => .isTrue trivial
  | .store _ _ _ => .isTrue trivial
  | .terminate _ => .isTrue trivial

instance (c : Paging β) (e : PagingEvent β) (c' : Paging β) : Decidable (PrivateReady c e c') :=
  decidable_of_iff (Private c e c' ∧ e.isReady = true) (and_congr_right' PagingEvent.isReady_iff)

/-- The swap pool and the page tables while no process accesses `kUseg3`. The entries
of a process that has ended are left behind. -/
structure PrivatePages (S : Setup) (c : Paging β) : Prop where
  faults : ∀ ID st, c.pending ID = some st → S.IsProcess ID ∧ MissingPage st ∧
    segmentOf st.s_asid ≠ 3 ∧ ¬ c.shared.IsValid (pteOf ID st.s_asid)
  shared : ∀ page, ¬ c.shared.IsValid (.kuSeg3 page)
  frames : ∀ i < S.SWAPSIZE, c.shared.Occupied i → ∃ ID a, S.IsProcess ID ∧ segmentOf a ≠ 3 ∧
    c.shared.swapPool i = swapEntry ID a ∧ c.shared.IsValid (pteOf ID a) ∧
    frameNumber (c.shared.entryLO (pteOf ID a)) = swapAddress S i
  entries : ∀ ID page, c.ended ID = false → c.shared.IsValid (.uProc_pte ID page) →
    ∃ i < S.SWAPSIZE, c.shared.Holds i (.uProc_pte ID page)

theorem pteOf_private (h : segmentOf a ≠ 3) : pteOf ID a = .uProc_pte ID (pageOf a) := if_neg h

theorem Paging.Cold.privatePages (h : c.Cold S) : PrivatePages S c := by
  refine ⟨fun ID st hst => ?_, fun page => h.entries _, fun i hi hoccupied => ?_,
    fun ID page _ hvalid => absurd hvalid (h.entries _)⟩
  · simp [h.pending ID] at hst
  · exact absurd hoccupied (h.frames i hi)

section

variable (h : PrivatePages S c)

include h

/-- The frame that holds the page of an entry. -/
theorem PrivatePages.owner (hi : i < S.SWAPSIZE) (hholds : c.shared.Holds i (.uProc_pte ID page)) :
    S.IsProcess ID ∧ (c.shared.swapPool i).sw_asid = ID ∧ c.shared.IsValid (.uProc_pte ID page) ∧
      frameNumber (c.shared.entryLO (.uProc_pte ID page)) = swapAddress S i := by
  obtain ⟨ID', a, hID, hseg, hswap, hvalid, hframe⟩ := h.frames i hi hholds.1
  have hpte : pteOf ID' a = .uProc_pte ID page := by
    rw [← hholds.2, hswap]
    rfl
  rw [hpte] at hvalid hframe
  obtain ⟨rfl, -⟩ := PtePtr.uProc_pte.inj ((pteOf_private hseg).symm.trans hpte)
  exact ⟨hID, by rw [hswap]; rfl, hvalid, hframe⟩

/-- No page is in two frames. -/
theorem PrivatePages.unique (hi : i < S.SWAPSIZE) (hj : j < S.SWAPSIZE)
    (hholds : c.shared.Holds i (.uProc_pte ID page)) (hholds' : c.shared.Holds j (.uProc_pte ID page)) :
    i = j :=
  swapAddress_inj hi hj ((h.owner hi hholds).2.2.2.symm.trans (h.owner hj hholds').2.2.2)

theorem PrivatePages.fault {c₁ : Paging β} (hID : S.IsProcess ID) (hst : MissingPage st)
    (hseg : segmentOf st.s_asid ≠ 3) (hvalid : ¬ c.shared.IsValid (pteOf ID st.s_asid))
    (hc₁ : c₁ = { c with pending := Function.update c.pending ID (some st) }) : PrivatePages S c₁ := by
  subst hc₁
  refine ⟨fun ID' st' hst' => ?_, h.shared, h.frames, h.entries⟩
  by_cases hsame : ID' = ID
  · subst hsame
    obtain rfl : st = st' := by simpa using hst'
    exact ⟨hID, hst, hseg, hvalid⟩
  · exact h.faults ID' st' (by simpa [hsame] using hst')

/-- Serving a fault. -/
theorem PrivatePages.serve (hpending : c.pending ID = some st)
    (hserved : Served S ID st.s_asid c.shared s') :
    PrivatePages S { c with shared := s', pending := Function.update c.pending ID none } := by
  obtain ⟨hID, -, hseg, hmissing⟩ := h.faults ID st hpending
  have hlt := nextFrame_lt (s := c.shared) (S := S)
  have hpte : pteOf ID st.s_asid = _ := pteOf_private hseg
  have hentry : s'.entryLO (pteOf ID st.s_asid) = frameEntry S (c.shared.nextFrame S) st.s_asid := by
    rw [hserved.entryLO, if_pos rfl]
  have hnew : s'.Holds (c.shared.nextFrame S) (pteOf ID st.s_asid) := by
    rw [Holds, Occupied, hserved.swapPool, Function.update_self]
    exact ⟨hID.ne_neg_one, rfl⟩
  have hframe : ∀ j, j ≠ c.shared.nextFrame S → s'.swapPool j = c.shared.swapPool j := by
    intro j hj
    rw [hserved.swapPool, Function.update_of_ne hj]
  have hgone : ∀ p, s'.IsValid p → p ≠ pteOf ID st.s_asid →
      ¬ c.shared.Holds (c.shared.nextFrame S) p ∧ s'.entryLO p = c.shared.entryLO p := by
    intro p hvalid hp
    have hholds : ¬ c.shared.Holds (c.shared.nextFrame S) p := by
      intro hholds
      rw [IsValid, hserved.entryLO, if_neg hp, if_pos hholds] at hvalid
      exact absurd hvalid (by decide)
    exact ⟨hholds, by rw [hserved.entryLO, if_neg hp, if_neg hholds]⟩
  refine ⟨fun ID' st' hst' => ?_, fun page hvalid => ?_, fun j hj hoccupied => ?_,
    fun ID' page hlive hvalid => ?_⟩
  · have hother : ID' ≠ ID := by
      rintro rfl
      simp at hst'
    obtain ⟨hID', hst₁, hseg', hvalid⟩ := h.faults ID' st' (by simpa [hother] using hst')
    refine ⟨hID', hst₁, hseg', fun hvalid' => ?_⟩
    have hne : pteOf ID' st'.s_asid ≠ pteOf ID st.s_asid := by
      rw [hpte, pteOf_private hseg']
      intro heq
      exact hother (PtePtr.uProc_pte.inj heq).1
    have hvalid' : s'.IsValid (pteOf ID' st'.s_asid) := hvalid'
    rw [IsValid, (hgone _ hvalid' hne).2] at hvalid'
    exact hvalid hvalid'
  · have hne : PtePtr.kuSeg3 page ≠ pteOf ID st.s_asid := by
      rw [hpte]
      intro heq
      exact PtePtr.noConfusion heq
    have hvalid : s'.IsValid (.kuSeg3 page) := hvalid
    rw [IsValid, (hgone _ hvalid hne).2] at hvalid
    exact h.shared page hvalid
  · by_cases hnext : j = c.shared.nextFrame S
    · subst hnext
      refine ⟨ID, st.s_asid, hID, hseg, ?_, ?_, ?_⟩
      · exact (congrFun hserved.swapPool _).trans (Function.update_self _ _ _)
      · exact (congrArg (· &&& VALID) hentry).trans valid_frameEntry
      · exact (congrArg frameNumber hentry).trans frameNumber_frameEntry
    · have hoccupied' : c.shared.Occupied j := by
        have hoccupied : s'.Occupied j := hoccupied
        rwa [Occupied, hframe j hnext] at hoccupied
      obtain ⟨ID', a, hID', hseg', hswap, hvalid, haddr⟩ := h.frames j hj hoccupied'
      have hne : pteOf ID' a ≠ pteOf ID st.s_asid := by
        intro heq
        exact hmissing (heq ▸ hvalid)
      have hpte' : pteOf ID' a = _ := pteOf_private hseg'
      have hholds : ¬ c.shared.Holds (c.shared.nextFrame S) (pteOf ID' a) := by
        intro hholds
        have hholds' : c.shared.Holds j (pteOf ID' a) := ⟨hoccupied', by rw [hswap]; rfl⟩
        rw [hpte'] at hholds hholds'
        exact hnext (h.unique hj hlt hholds' hholds)
      have hkept : s'.entryLO (pteOf ID' a) = c.shared.entryLO (pteOf ID' a) := by
        rw [hserved.entryLO, if_neg hne, if_neg hholds]
      refine ⟨ID', a, hID', hseg', (hframe j hnext).trans hswap, ?_, ?_⟩
      · exact (congrArg (· &&& VALID) hkept).trans hvalid
      · exact (congrArg frameNumber hkept).trans haddr
  · by_cases hp : .uProc_pte ID' page = pteOf ID st.s_asid
    · exact ⟨_, hlt, hp ▸ hnew⟩
    · have hvalid : s'.IsValid (.uProc_pte ID' page) := hvalid
      obtain ⟨hvictim, hkept⟩ := hgone _ hvalid hp
      rw [IsValid, hkept] at hvalid
      obtain ⟨j, hj, hholds⟩ := h.entries ID' page hlive hvalid
      have hne : j ≠ c.shared.nextFrame S := by
        rintro rfl
        exact hvictim hholds
      refine ⟨j, hj, ?_⟩
      change s'.Holds j _
      rwa [Holds, Occupied, hframe j hne]

/-- The end of a process. -/
theorem PrivatePages.terminate (hlive : c.ended ID = false) (hreleased : Released ID c.shared s') :
    PrivatePages S { c with shared := s', ended := Function.update c.ended ID true } := by
  have hentry : ∀ p, s'.entryLO p = c.shared.entryLO p := by
    intro p
    rw [hreleased.others]
    cases p <;> rfl
  have hvalid : ∀ p, s'.IsValid p ↔ c.shared.IsValid p := fun p => by rw [IsValid, hentry, IsValid]
  refine ⟨fun ID' st' hst' => ?_, fun page => ?_, fun j hj hoccupied => ?_,
    fun ID' page hlive' hpage => ?_⟩
  · obtain ⟨hID', hst₁, hseg', hmissing⟩ := h.faults ID' st' hst'
    exact ⟨hID', hst₁, hseg', (hvalid _).not.mpr hmissing⟩
  · exact (hvalid _).not.mpr (h.shared page)
  · have hoccupied : s'.Occupied j := hoccupied
    rcases hreleased.frames j with hsame | ⟨-, hfree⟩
    · rw [Occupied, hsame] at hoccupied
      obtain ⟨ID', a, hID', hseg', hswap, hpage, haddr⟩ := h.frames j hj hoccupied
      refine ⟨ID', a, hID', hseg', hsame.trans hswap, (hvalid _).mpr hpage, ?_⟩
      exact (congrArg frameNumber (hentry _)).trans haddr
    · rw [Occupied, hfree] at hoccupied
      exact absurd rfl hoccupied
  · have hother : ID' ≠ ID := by
      rintro rfl
      simp at hlive'
    have hlive' : c.ended ID' = false := by simpa [hother] using hlive'
    obtain ⟨j, hj, hholds⟩ := h.entries ID' page hlive' ((hvalid _).mp hpage)
    have hsame : s'.swapPool j = c.shared.swapPool j := by
      refine (hreleased.frames j).resolve_right fun howned => ?_
      exact hother ((h.owner hj hholds).2.1.symm.trans howned.1)
    refine ⟨j, hj, ?_⟩
    change s'.Holds j _
    rwa [Holds, Occupied, hsame]

end

theorem PrivatePages.step (h : PrivatePages S c) (hstep : Paging.Step S c e c')
    (hprivate : Private c e c') :
    PrivatePages S c' := by
  cases hstep with
  | fault hrun hmissing _ hvalid => exact h.fault hrun.process hmissing hprivate hvalid rfl
  | serve hpending hruns =>
    exact h.serve hpending (runs_served (h.faults _ _ hpending).2.1 hruns)
  | @store ID a x _ _ _ =>
    have hentry : ∀ p, (c.shared.setPage (c.shared.pageAt ID a) x).entryLO p = c.shared.entryLO p := by
      intro p
      cases p <;> rfl
    have hswap : (c.shared.setPage (c.shared.pageAt ID a) x).swapPool = c.shared.swapPool := rfl
    refine ⟨fun ID' st' hst' => ?_, fun page => ?_, fun j hj hoccupied => ?_,
      fun ID' page hlive hpage => ?_⟩
    · simpa only [IsValid, hentry] using h.faults ID' st' hst'
    · simpa only [IsValid, hentry] using h.shared page
    · simpa only [IsValid, hentry, hswap] using h.frames j hj hoccupied
    · rw [IsValid, hentry] at hpage
      exact h.entries ID' page hlive hpage
  | terminate hrun hruns => exact h.terminate hrun.live (runs_meIRL hruns)

/-! What a process finds in its pages -/

/-- The contents of a page of a process: in its frame, else on the disk. -/
def Paging.contents (c : Paging β) (ID page : Word) : β :=
  if c.shared.IsValid (.uProc_pte ID page) then
    c.shared.page (frameNumber (c.shared.entryLO (.uProc_pte ID page)))
  else c.shared.block page 0 (ID - 1)

/-- The stores of a process to its pages. -/
def storeOf : PagingEvent β → List ((Word × Word) × β)
  | .store ID a x => [((ID, pageOf a), x)]
  | _ => []

/-- What serving a page fault does to the memory and the disk. -/
structure Exchanged (S : Setup) (ID a : Word) (s s' : Phase3 β) : Prop where
  block : s'.block = evictedBlock S s
  page : ∀ x, s'.page x =
    if x = swapAddress S (s.nextFrame S) then evictedBlock S s (pageOf a) 0 (ID - 1) else s.page x

/-- Of all pages of the RAM the pager changes that of the next frame only. -/
theorem runs_exchanged (hst : MissingPage st) (hID : S.IsProcess ID)
    (hfrom : s.Occupied (s.nextFrame S) → ∃ ID' a', S.IsProcess ID' ∧
      s.swapPool (s.nextFrame S) = swapEntry ID' a')
    (h : RunsAlone S true ID (vmMemHandler S st ID) s (some ()) s') :
    Exchanged S ID st.s_asid s s' := by
  have hcontents : s'.block = evictedBlock S s ∧ s'.page (swapAddress S (s.nextFrame S)) =
      evictedBlock S s (pageOf st.s_asid) 0 (ID - 1) := by
    by_cases hoccupied : s.Occupied (s.nextFrame S)
    · obtain ⟨ID', a', hprocess, hswap⟩ := hfrom hoccupied
      exact runs_contents [(ID', a')] hst hID
        (fun _ => ⟨(ID', a'), List.mem_singleton_self _, hprocess, hswap⟩) h
    · exact runs_contents [] hst hID (fun h => absurd h hoccupied) h
  refine ⟨hcontents.1, fun x => ?_⟩
  split
  · rename_i hx
    rw [hx]
    exact hcontents.2
  · rename_i hx
    obtain ⟨s₁, s₂, hevict, hread, rfl⟩ := runs_vmMemHandler hst h
    have hs₁ : s₁.page = s.page := by
      rcases runs_evict hevict with ⟨-, rfl⟩ | ⟨hoccupied, hwrite⟩
      · rfl
      · obtain ⟨ID', a', hprocess, hswap⟩ := hfrom hoccupied
        have hentry : ({ s with next := s.nextFrame S } : Phase3 β).swapPool (s.nextFrame S) =
          swapEntry ID' a' := hswap
        rw [hentry] at hwrite
        rw [runs_writeBacking (lt_trans pageOf_lt (by decide)) hprocess.sector_lt hwrite]
        simp only [setBlock, unmapped, setEntryLO_page]
    have hs₂ := runs_readBacking (lt_trans pageOf_lt (by decide)) hID.sector_lt hread
    simp only [validated, setEntryLO_page, hs₂, setPage, Function.update_of_ne hx, hs₁]

section

variable (h : PrivatePages S c)

include h

/-- A page that is mapped lies in a frame. -/
theorem PrivatePages.frame (hlive : c.ended ID = false)
    (hvalid : c.shared.IsValid (.uProc_pte ID page)) :
    ∃ i < S.SWAPSIZE, c.shared.Holds i (.uProc_pte ID page) ∧
      frameNumber (c.shared.entryLO (.uProc_pte ID page)) = swapAddress S i := by
  obtain ⟨i, hi, hholds⟩ := h.entries ID page hlive hvalid
  exact ⟨i, hi, hholds, (h.owner hi hholds).2.2.2⟩

/-- The block of a page that is not evicted. -/
theorem evictedBlock_other (hnot : ¬ c.shared.Holds (c.shared.nextFrame S) (.uProc_pte ID page)) :
    evictedBlock S c.shared page 0 (ID - 1) = c.shared.block page 0 (ID - 1) := by
  unfold evictedBlock
  split
  · rename_i hoccupied
    obtain ⟨ID', a, -, hseg, hswap, -, -⟩ := h.frames _ nextFrame_lt hoccupied
    refine if_neg ?_
    rintro ⟨hpage, -, hsector⟩
    refine hnot ⟨hoccupied, ?_⟩
    rw [hswap] at hpage hsector ⊢
    have hID : ID = ID' := (BitVec.sub_left_inj 1).mp hsector
    have hpage : page = pageOf a := hpage
    rw [hID, hpage]
    exact pteOf_private hseg
  · rfl

/-- The block of the page that is evicted. -/
theorem evictedBlock_victim (hholds : c.shared.Holds (c.shared.nextFrame S) (.uProc_pte ID page)) :
    evictedBlock S c.shared page 0 (ID - 1) = c.shared.page (swapAddress S (c.shared.nextFrame S)) := by
  obtain ⟨ID', a, -, hseg, hswap, -, -⟩ := h.frames _ nextFrame_lt hholds.1
  have hpte : pteOf ID' a = .uProc_pte ID page := by
    rw [← hholds.2, hswap]
    rfl
  obtain ⟨rfl, rfl⟩ := PtePtr.uProc_pte.inj ((pteOf_private hseg).symm.trans hpte)
  unfold evictedBlock
  rw [if_pos hholds.1, hswap]
  exact if_pos ⟨rfl, rfl, rfl⟩

/-- Serving a fault changes the contents of no page. -/
theorem PrivatePages.contents_serve (hpending : c.pending ID = some st)
    (hserved : Served S ID st.s_asid c.shared s') (hmoved : Exchanged S ID st.s_asid c.shared s')
    (hc' : c'.shared = s') {ID' : Word} (hlive : c.ended ID' = false) :
    c'.contents ID' page = c.contents ID' page := by
  obtain ⟨-, -, hseg, hmissing⟩ := h.faults ID st hpending
  have hpte : pteOf ID st.s_asid = _ := pteOf_private hseg
  unfold Paging.contents
  rw [hc', hmoved.block]
  by_cases hnew : PtePtr.uProc_pte ID' page = pteOf ID st.s_asid
  · -- the page that was missing
    have hentry : s'.entryLO (.uProc_pte ID' page) = frameEntry S (c.shared.nextFrame S) st.s_asid := by
      rw [hserved.entryLO, if_pos hnew]
    have hnot : ¬ c.shared.IsValid (.uProc_pte ID' page) := hnew ▸ hmissing
    have hvictim : ¬ c.shared.Holds (c.shared.nextFrame S) (.uProc_pte ID' page) :=
      fun hholds => hnot (h.owner nextFrame_lt hholds).2.2.1
    obtain ⟨hID, hpage⟩ := PtePtr.uProc_pte.inj (hnew.trans hpte)
    rw [if_pos (by rw [IsValid, hentry]; exact valid_frameEntry), if_neg hnot, hentry,
      frameNumber_frameEntry, hmoved.page, if_pos rfl, ← hID, ← hpage]
    exact evictedBlock_other h hvictim
  · by_cases hvictim : c.shared.Holds (c.shared.nextFrame S) (.uProc_pte ID' page)
    · -- the page that is evicted
      obtain ⟨-, -, hvalid, hframe⟩ := h.owner nextFrame_lt hvictim
      have hentry : s'.entryLO (.uProc_pte ID' page) = 0 := by
        rw [hserved.entryLO, if_neg hnew, if_pos hvictim]
      rw [if_neg (by rw [IsValid, hentry]; decide), if_pos hvalid, hframe]
      exact evictedBlock_victim h hvictim
    · have hentry : s'.entryLO (.uProc_pte ID' page) = c.shared.entryLO (.uProc_pte ID' page) := by
        rw [hserved.entryLO, if_neg hnew, if_neg hvictim]
      have hsame : s'.IsValid (.uProc_pte ID' page) ↔ c.shared.IsValid (.uProc_pte ID' page) := by
        rw [IsValid, hentry, IsValid]
      by_cases hvalid : c.shared.IsValid (.uProc_pte ID' page)
      · obtain ⟨i, hi, hholds, hframe⟩ := h.frame hlive hvalid
        rw [if_pos (hsame.mpr hvalid), if_pos hvalid, hentry, hmoved.page, hframe]
        refine if_neg fun haddr => hvictim ?_
        exact swapAddress_inj hi nextFrame_lt haddr ▸ hholds
      · rw [if_neg (hsame.not.mpr hvalid), if_neg hvalid]
        exact evictedBlock_other h hvictim

/-- A store changes the contents of one page of the process. -/
theorem PrivatePages.contents_store {ID' page' : Word} {x : β} (hlive : c.ended ID = false)
    (hvalid : c.shared.IsValid (.uProc_pte ID page))
    (hc' : c'.shared = c.shared.setPage (frameNumber (c.shared.entryLO (.uProc_pte ID page))) x)
    (hlive' : c.ended ID' = false) : c'.contents ID' page' =
      if ID' = ID ∧ page' = page then x else c.contents ID' page' := by
  have hentry : ∀ p, c'.shared.entryLO p = c.shared.entryLO p := by
    intro p
    rw [hc']
    cases p <;> rfl
  have hblock : c'.shared.block = c.shared.block := by rw [hc', setPage]
  have hpage : ∀ y, c'.shared.page y =
      if y = frameNumber (c.shared.entryLO (.uProc_pte ID page)) then x else c.shared.page y := by
    intro y
    rw [hc']
    exact Function.update_apply _ _ _ _
  have hsame : ∀ p, c'.shared.IsValid p ↔ c.shared.IsValid p := fun p => by
    rw [IsValid, hentry, IsValid]
  obtain ⟨i, hi, hholds, hframe⟩ := h.frame hlive hvalid
  unfold Paging.contents
  by_cases hvalid' : c.shared.IsValid (.uProc_pte ID' page')
  · obtain ⟨j, hj, hholds', hframe'⟩ := h.frame hlive' hvalid'
    rw [if_pos ((hsame _).mpr hvalid'), if_pos hvalid', hentry, hpage, hframe, hframe']
    refine if_congr ⟨fun haddr => ?_, ?_⟩ rfl rfl
    · obtain rfl := swapAddress_inj hj hi haddr
      obtain ⟨hID, hpage'⟩ := PtePtr.uProc_pte.inj (hholds'.2.symm.trans hholds.2)
      exact ⟨hID, hpage'⟩
    · rintro ⟨rfl, rfl⟩
      exact hframe'.symm.trans hframe
  · have hother : ¬ (ID' = ID ∧ page' = page) := by
      rintro ⟨rfl, rfl⟩
      exact hvalid' hvalid
    rw [if_neg ((hsame _).not.mpr hvalid'), if_neg hvalid', if_neg hother, hblock]

/-- An address of a process that can be accessed leads to the contents of its page. -/
theorem PrivatePages.contents_eq (hseg : SEG2 ≤ a) (hmapped : c.shared.Mapped ID a) :
    c.shared.IsValid (.uProc_pte ID (pageOf a)) ∧
      c.shared.pageAt ID a = frameNumber (c.shared.entryLO (.uProc_pte ID (pageOf a))) := by
  have hvalid : c.shared.IsValid (pteOf ID a) := hmapped hseg
  have hpte : pteOf ID a = .uProc_pte ID (pageOf a) := by
    refine pteOf_private fun hthree => ?_
    rw [pteOf, if_pos hthree] at hvalid
    exact h.shared _ hvalid
  rw [hpte] at hvalid
  refine ⟨hvalid, ?_⟩
  rw [pageAt, if_pos hseg, hpte, frameNumber]

end

/-- The pages of the processes, and the memory that they implement. -/
structure Implements (S : Setup) (c : Paging β) (m : Word × Word → β) : Prop where
  pages : PrivatePages S c
  contents : ∀ ID page, c.ended ID = false → c.contents ID page = m (ID, page)

/-- What the disk holds at first. -/
def backing (s : Phase3 β) : Word × Word → β := fun k => s.block k.2 0 (k.1 - 1)

theorem Paging.Cold.implements (h : c.Cold S) : Implements S c (backing c.shared) :=
  ⟨h.privatePages, fun _ _ _ => if_neg (h.entries _)⟩

/-- Paging implements a memory of its own for every process. -/
theorem paging_simulation : Simulation ((pagingSystem β S).restrict PrivateReady)
    (memory (Word × Word) β) (fun _ e _ => storeOf e) (Implements S) := by
  refine ⟨fun c hcold => ⟨backing c.shared, trivial, Paging.Cold.implements hcold⟩,
    fun c e c' m hstep h => ?_⟩
  obtain ⟨hstep, hprivate, hready⟩ := hstep
  have hpages := h.pages.step hstep hprivate
  cases hstep with
  | fault _ _ _ _ => exact ⟨m, .nil, hpages, h.contents⟩
  | @serve ID st ready s' hpending hruns =>
    obtain rfl : ready = true := by
      by_contra hfalse
      exact hready ID (by simp [Bool.eq_false_of_not_eq_true hfalse])
    obtain ⟨hID, hmissing, -, -⟩ := h.pages.faults ID st hpending
    have hmoved := runs_exchanged hmissing hID (fun hoccupied => by
      obtain ⟨ID', a', hID', -, hswap, -⟩ := h.pages.frames _ nextFrame_lt hoccupied
      exact ⟨ID', a', hID', hswap⟩) hruns
    refine ⟨m, .nil, hpages, fun ID' page hlive => ?_⟩
    rw [← h.contents ID' page hlive]
    exact h.pages.contents_serve hpending (runs_served hmissing hruns) hmoved rfl hlive
  | @store ID a x hrun hseg hmapped =>
    obtain ⟨hvalid, hpage⟩ := h.pages.contents_eq hseg hmapped
    refine ⟨Function.update m (ID, pageOf a) x, .single rfl, hpages, fun ID' page hlive => ?_⟩
    rw [h.pages.contents_store hrun.live hvalid (by rw [hpage]) hlive, Function.update_apply,
      h.contents ID' page hlive]
    simp only [Prod.mk.injEq]
  | @terminate ID ready s' hrun hruns =>
    have hreleased := runs_meIRL hruns
    refine ⟨m, .nil, hpages, fun ID' page hlive => ?_⟩
    have hother : ID' ≠ ID := by
      rintro rfl
      simp at hlive
    rw [← h.contents ID' page (by simpa [hother] using hlive)]
    unfold Paging.contents
    dsimp only
    rw [hreleased.others]
    rfl

/-- In every run without accesses to `kUseg3` and with a disk that is ready, a process
finds in each of its pages what it has stored there last, and the block of the disk
if that is nothing. -/
theorem memory_of_run {l : List (PagingEvent β × Paging β)} (hcold : c.Cold S)
    (hpath : ((pagingSystem β S).restrict PrivateReady).Path c l c') :
    ∃ m, (memory (Word × Word) β).Does (backing c.shared)
        (observed (fun _ e _ => storeOf e) c l) m ∧
      ∀ ID a, c'.ended ID = false → SEG2 ≤ a → c'.shared.Mapped ID a →
        c'.shared.page (c'.shared.pageAt ID a) = m (ID, pageOf a) := by
  obtain ⟨m, hdoes, himplements⟩ := paging_simulation.path hpath hcold.implements
  refine ⟨m, hdoes, fun ID a hlive hseg hmapped => ?_⟩
  obtain ⟨hvalid, hpage⟩ := himplements.pages.contents_eq hseg hmapped
  rw [hpage, ← himplements.contents ID (pageOf a) hlive]
  exact (if_pos hvalid).symm

/-- Two processes take the only frame in turns, and the first one has stored to its page. -/
def sharingRun : List (PagingEvent Bool) :=
  [.fault 1 firstFault, .serve 1 true, .store 1 SEG2 true, .fault 2 firstFault, .serve 2 true,
    .store 2 SEG2 false, .fault 1 firstFault, .serve 1 true]

def sharedFrame : Paging Bool := (pagingScript Bool .small).play (coldPaging false) sharingRun

theorem memory_of_run_small : ∃ m : Word × Word → Bool,
    (memory (Word × Word) Bool).Does (backing (coldPaging false).shared)
      [((1, pageOf SEG2), true), ((2, pageOf SEG2), false)] m ∧
    sharedFrame.shared.page (sharedFrame.shared.pageAt 1 SEG2) = m (1, pageOf SEG2) ∧
    sharedFrame.shared.page (sharedFrame.shared.pageAt 1 SEG2) = true := by
  have hpath : ((pagingSystem Bool .small).restrict PrivateReady).Path (coldPaging false)
      (((pagingScript Bool .small).restrict PrivateReady).events (coldPaging false) sharingRun)
      sharedFrame :=
    pagingScript_follows.restrict.path (by decide +kernel)
  have hstores : observed (fun _ e _ => storeOf e) (coldPaging false)
      (((pagingScript Bool .small).restrict PrivateReady).events (coldPaging false) sharingRun) =
      [((1, pageOf SEG2), true), ((2, pageOf SEG2), false)] := by
    decide +kernel
  obtain ⟨m, hdoes, hpages⟩ := memory_of_run (coldPaging_cold false) hpath
  rw [hstores] at hdoes
  exact ⟨m, hdoes, hpages 1 SEG2 (by decide +kernel) (by decide) (by decide +kernel),
    by decide +kernel⟩

end Kaya
