import Kaya.Phase3.FrameTables

open Exec Prog

namespace Kaya

open Phase3

variable {β : Type} {S : Setup} {s s' : Phase3 β} {ID a : Word} {st : State} {ready : Bool}
  {c c' : Paging β} {l : List (Paging β × PagingEvent β)}

/-- The faults that a run has served: the processes and the addresses, the last one
first. -/
def servedFaults : List (Paging β × PagingEvent β) → List (Word × Word)
  | [] => []
  | (c, .serve ID _) :: l =>
    match c.pending ID with
    | some st => (ID, st.s_asid) :: servedFaults l
    | none => servedFaults l
  | _ :: l => servedFaults l

/-- The pages that a run has evicted, each with its contents at that time, the last
one first. -/
def evictions (S : Setup) : List (Paging β × PagingEvent β) → List (Swap × β)
  | [] => []
  | (c, .serve _ _) :: l =>
    let i := c.shared.nextFrame S
    if c.shared.Occupied i then
      (c.shared.swapPool i, c.shared.page (swapAddress S i)) :: evictions S l
    else evictions S l
  | _ :: l => evictions S l

/-- The contents of the page of an entry when it was last evicted. -/
def lastEvicted (p : PtePtr) (l : List (Swap × β)) : Option β :=
  (l.find? fun x => x.1.sw_pte = p).map Prod.snd

/-- The contents that were last evicted to the block of a page number and an ASID. -/
def lastWritten (page ASID : Word) (l : List (Swap × β)) : Option β :=
  (l.find? fun x => x.1.sw_pgNum = page ∧ x.1.sw_asid = ASID).map Prod.snd

/-- The state in which a run has begun. -/
def firstPaging : List (Paging β × PagingEvent β) → Paging β → Paging β
  | [], c => c
  | x :: l, _ => firstPaging l x.1

/-- Any two faults of the run are on the same page exactly if they have the page
number and the ASID in common. -/
def BlocksApart (faults : List (Word × Word)) : Prop :=
  ∀ f ∈ faults, ∀ g ∈ faults, pageOf f.2 = pageOf g.2 ∧ f.1 = g.1 ↔ pteOf f.1 f.2 = pteOf g.1 g.2

instance (faults : List (Word × Word)) : Decidable (BlocksApart faults) :=
  @List.decidableBAll _ _ (fun _ => List.decidableBAll _ faults) faults

/-- The disk has been ready after every command. -/
def AllReady (l : List (Paging β × PagingEvent β)) : Prop := ∀ x ∈ l, ∀ ID, x.2 ≠ .serve ID false

/-- The disk is ready, or nothing is asked of it. -/
def PagingEvent.isReady : PagingEvent β → Bool
  | .serve _ ready => ready
  | _ => true

theorem PagingEvent.isReady_iff {e : PagingEvent β} :
    e.isReady = true ↔ ∀ ID, e ≠ .serve ID false := by
  cases e with
  | serve ID ready => cases ready <;> simp [PagingEvent.isReady]
  | _ => simp [PagingEvent.isReady]

instance : Decidable (AllReady l) :=
  decidable_of_iff (∀ x ∈ l, x.2.isReady = true)
    (forall₂_congr fun _ _ => PagingEvent.isReady_iff)

/-- The page that is brought in has the contents with which it was last evicted,
and if it has never been, what the disk had in its block at first. -/
def Restored (S : Setup) (l : List (Paging β × PagingEvent β)) (c : Paging β) (ID a : Word)
    (c' : Paging β) : Prop :=
  c'.shared.page (swapAddress S (c.shared.nextFrame S)) =
    (lastEvicted (pteOf ID a) (evictions S l)).getD ((firstPaging l c).shared.block (pageOf a) 0 (ID - 1))

/-- The blocks of the backing store after the eviction from the next frame. -/
def evictedBlock (S : Setup) (s : Phase3 β) : Word → Word → Word → β :=
  let i := s.nextFrame S
  if s.Occupied i then
    (s.setBlock (s.swapPool i).sw_pgNum 0 ((s.swapPool i).sw_asid - 1) (s.page (swapAddress S i))).block
  else s.block

theorem pageOf_lt : (pageOf a).toNat < 32 := by
  unfold pageOf
  dsimp only
  split
  · decide
  · rename_i hlt
    have hnat : ¬ (32 : Nat) ≤ ((a &&& GET_VPN) >>> 12).toNat := hlt
    omega

theorem Setup.IsProcess.sector_lt (h : S.IsProcess ID) : (ID - 1).toNat < 256 := by
  have hmax : S.MAXUSERPROC ≤ 20 := S.processes
  have hlo : 1 ≤ ID.toNat := h.1
  have hhi : ID.toNat ≤ (BitVec.ofNat 32 S.MAXUSERPROC).toNat := h.2
  rw [BitVec.toNat_ofNat, Nat.mod_eq_of_lt (by omega)] at hhi
  rw [BitVec.toNat_sub]
  have hone : (1 : Word).toNat = 1 := rfl
  omega

/-- The frame holds a page that one of the faults was on. -/
def FromFault (S : Setup) (faults : List (Word × Word)) (x : Swap) : Prop :=
  ∃ f ∈ faults, S.IsProcess f.1 ∧ x = swapEntry f.1 f.2

/-- What serving a page fault does to the disk and the memory. -/
theorem runs_contents (faults : List (Word × Word)) (hst : MissingPage st) (hID : S.IsProcess ID)
    (hfrom : s.Occupied (s.nextFrame S) → FromFault S faults (s.swapPool (s.nextFrame S)))
    (h : RunsAlone S true ID (vmMemHandler S st ID) s (some ()) s') :
    s'.block = evictedBlock S s ∧
      s'.page (swapAddress S (s.nextFrame S)) = evictedBlock S s (pageOf st.s_asid) 0 (ID - 1) := by
  obtain ⟨s₁, s₂, hevict, hread, rfl⟩ := runs_vmMemHandler hst h
  have hpage : (pageOf st.s_asid).toNat < 2 ^ 24 := lt_trans pageOf_lt (by decide)
  have hs₂ := runs_readBacking hpage hID.sector_lt hread
  have hs₁ : s₁.block = evictedBlock S s := by
    rcases runs_evict hevict with ⟨hfree, rfl⟩ | ⟨hoccupied, hwrite⟩
    · exact (if_neg hfree).symm
    · obtain ⟨f, -, hprocess, hentry⟩ := hfrom hoccupied
      have hentry' : ({ s with next := s.nextFrame S } : Phase3 β).swapPool (s.nextFrame S) =
        swapEntry f.1 f.2 := hentry
      rw [hentry'] at hwrite
      have hs₁ := runs_writeBacking (lt_trans pageOf_lt (by decide)) hprocess.sector_lt hwrite
      have hoccupied' : s.Occupied (s.nextFrame S) := hoccupied
      have hswap : s.swapPool (s.nextFrame S) = swapEntry f.1 f.2 := hentry
      simp only [evictedBlock, if_pos hoccupied', hswap, hs₁]
      simp only [setBlock, unmapped, swapEntry, setEntryLO_page, setEntryLO_block]
      rfl
  have hblock : s₂.block = s₁.block := by
    rw [hs₂]
    rfl
  refine ⟨?_, ?_⟩
  · simp only [validated, setEntryLO_block]
    rw [hblock, hs₁]
  · simp only [validated, setEntryLO_page]
    rw [hs₂, ← hs₁]
    exact Function.update_self _ _ _

/-- What a run has done to the disk, and where the pages in the frames come from. -/
structure ContentsInv (S : Setup) (l : List (Paging β × PagingEvent β)) (c : Paging β) : Prop where
  block : ∀ page ASID, c.shared.block page 0 (ASID - 1) =
    (lastWritten page ASID (evictions S l)).getD ((firstPaging l c).shared.block page 0 (ASID - 1))
  frames : ∀ i < S.SWAPSIZE, c.shared.Occupied i → FromFault S (servedFaults l) (c.shared.swapPool i)
  evicted : ∀ x ∈ evictions S l, FromFault S (servedFaults l) x.1
  faults : c.Faults S

/-- The block of a page number and an ASID after the eviction from the next frame. -/
theorem evictedBlock_eq (h : ContentsInv S l c) {ID : Word} {ready : Bool} (page ASID : Word) :
    evictedBlock S c.shared page 0 (ASID - 1) =
      (lastWritten page ASID (evictions S ((c, .serve ID ready) :: l))).getD
        ((firstPaging l c).shared.block page 0 (ASID - 1)) := by
  unfold evictedBlock evictions
  dsimp only
  split
  · rw [lastWritten, List.find?_cons]
    by_cases hsame : (c.shared.swapPool (c.shared.nextFrame S)).sw_pgNum = page ∧
        (c.shared.swapPool (c.shared.nextFrame S)).sw_asid = ASID
    · obtain ⟨hpage, hASID⟩ := hsame
      simp [setBlock, hpage, hASID]
    · have hblock : ¬ (page = (c.shared.swapPool (c.shared.nextFrame S)).sw_pgNum ∧ (0 : Word) = 0 ∧
          ASID - 1 = (c.shared.swapPool (c.shared.nextFrame S)).sw_asid - 1) := by
        rintro ⟨hpage, -, hASID⟩
        exact hsame ⟨hpage.symm, ((BitVec.sub_left_inj 1).mp hASID).symm⟩
      simp only [decide_eq_false hsame]
      exact (if_neg hblock).trans (h.block page ASID)
  · exact h.block page ASID

theorem FromFault.mono {faults faults' : List (Word × Word)} {x : Swap} (h : FromFault S faults x)
    (hsub : faults ⊆ faults') : FromFault S faults' x := by
  obtain ⟨f, hf, hx⟩ := h
  exact ⟨f, hsub hf, hx⟩

/-- One more fault served, with a disk that is ready. -/
theorem ContentsInv.serve (h : ContentsInv S l c) (hpending : c.pending ID = some st)
    (hruns : RunsAlone S true ID (vmMemHandler S st ID) c.shared (some ()) s')
    (hshared : c'.shared = s') (hfaults : c'.Faults S) :
    ContentsInv S ((c, .serve ID true) :: l) c' := by
  obtain ⟨hID, hmissing⟩ := h.faults _ _ hpending
  have hnext := h.frames _ (nextFrame_lt (s := c.shared) (S := S))
  have hserved := runs_served hmissing hruns
  have hcontents := runs_contents _ hmissing hID hnext hruns
  have hcons : servedFaults ((c, PagingEvent.serve ID true) :: l) = (ID, st.s_asid) :: servedFaults l := by
    simp [servedFaults, hpending]
  refine ⟨fun page ASID => ?_, fun i hi hoccupied => ?_, fun x hx => ?_, hfaults⟩
  · rw [hshared, hcontents.1]
    exact evictedBlock_eq h page ASID
  · rw [hcons]
    rw [hshared] at hoccupied ⊢
    by_cases hi' : i = c.shared.nextFrame S
    · refine ⟨(ID, st.s_asid), List.mem_cons_self, hID, ?_⟩
      rw [hserved.swapPool, hi', Function.update_self]
    · have hsame : s'.swapPool i = c.shared.swapPool i := by
        rw [hserved.swapPool, Function.update_of_ne hi']
      rw [Occupied, hsame] at hoccupied
      rw [hsame]
      exact (h.frames i hi hoccupied).mono (List.subset_cons_self _ _)
  · rw [hcons]
    unfold evictions at hx
    dsimp only at hx
    split at hx
    · rcases List.mem_cons.mp hx with rfl | hx
      · exact (hnext ‹_›).mono (List.subset_cons_self _ _)
      · exact (h.evicted x hx).mono (List.subset_cons_self _ _)
    · exact (h.evicted x hx).mono (List.subset_cons_self _ _)

theorem ContentsInv.step {e : PagingEvent β} (h : ContentsInv S l c) (hstep : Paging.Step S c e c')
    (hready : ∀ ID, e ≠ .serve ID false) : ContentsInv S ((c, e) :: l) c' := by
  have hfaults := h.faults.step hstep
  cases hstep with
  | fault _ _ _ _ => exact ⟨h.block, h.frames, h.evicted, hfaults⟩
  | @serve ID st ready s' hpending hruns =>
    cases ready with
    | true => exact h.serve hpending hruns rfl hfaults
    | false => exact absurd rfl (hready ID)
  | store _ _ _ => exact ⟨h.block, h.frames, h.evicted, hfaults⟩
  | terminate _ hruns =>
    have hreleased := runs_meIRL hruns
    refine ⟨fun page ASID => ?_, fun i hi hoccupied => ?_, h.evicted, hfaults⟩
    · rw [hreleased.others]
      exact h.block page ASID
    · rcases hreleased.frames i with hsame | ⟨-, hfree⟩
      · rw [Occupied, hsame] at hoccupied
        rw [hsame]
        exact h.frames i hi hoccupied
      · rw [Occupied, hfree] at hoccupied
        exact absurd rfl hoccupied

theorem contentsInv_of_run (h : (pagingSystem β S).Trace l c) (hready : AllReady l) :
    ContentsInv S l c := by
  induction h with
  | init hcold =>
    refine ⟨fun _ _ => rfl, fun i hi hoccupied => absurd hoccupied (hcold.frames i hi),
      fun x hx => absurd hx List.not_mem_nil, fun ID st hst => ?_⟩
    simp [hcold.pending ID] at hst
  | step _ hstep ih =>
    have hrest := ih fun x hx => hready x (List.mem_cons_of_mem _ hx)
    exact hrest.step hstep (hready _ List.mem_cons_self)

/-- Where faults share no blocks, the last eviction of a page is the last write to
its block. -/
theorem lastWritten_eq {faults : List (Word × Word)} (hapart : BlocksApart faults)
    (hmem : (ID, a) ∈ faults) {evicted : List (Swap × β)}
    (hfrom : ∀ x ∈ evicted, FromFault S faults x.1) :
    lastWritten (pageOf a) ID evicted = lastEvicted (pteOf ID a) evicted := by
  induction evicted with
  | nil => rfl
  | cons x evicted ih =>
    obtain ⟨f, hf, -, hx⟩ := hfrom x List.mem_cons_self
    have hiff : (x.1.sw_pgNum = pageOf a ∧ x.1.sw_asid = ID) ↔ x.1.sw_pte = pteOf ID a := by
      rw [hx]
      exact hapart f hf (ID, a) hmem
    have hrest := ih fun y hy => hfrom y (List.mem_cons_of_mem x hy)
    rw [lastWritten, lastEvicted, List.find?_cons, List.find?_cons]
    by_cases hpte : x.1.sw_pte = pteOf ID a
    · simp [hpte, hiff.mpr hpte]
    · simp only [decide_eq_false hpte, decide_eq_false (hiff.not.mpr hpte)]
      exact hrest

/-- In a run whose faults share no blocks, paging preserves the contents of every
page. -/
theorem contents_of_run (h : (pagingSystem β S).Trace ((c, .serve ID ready) :: l) c')
    (hapart : BlocksApart (servedFaults ((c, .serve ID ready) :: l)))
    (hready : AllReady ((c, .serve ID ready) :: l)) (hpending : c.pending ID = some st) :
    Restored S ((c, .serve ID ready) :: l) c ID st.s_asid c' := by
  cases h with
  | step htrace hstep =>
    have hinv := contentsInv_of_run htrace fun x hx => hready x (List.mem_cons_of_mem _ hx)
    have hinv' := hinv.step hstep (hready _ List.mem_cons_self)
    cases hstep with
    | @serve _ st' _ s' hpending' hruns =>
      obtain rfl : st' = st := Option.some.inj (hpending'.symm.trans hpending)
      obtain rfl : ready = true := by
        by_contra hfalse
        exact hready _ List.mem_cons_self ID (by simp [Bool.eq_false_of_not_eq_true hfalse])
      obtain ⟨hID, hmissing⟩ := hinv.faults _ _ hpending
      have hmem : (ID, st'.s_asid) ∈ servedFaults ((c, PagingEvent.serve ID true) :: l) := by
        simp [servedFaults, hpending]
      have hcontents := runs_contents _ hmissing hID (hinv.frames _ nextFrame_lt) hruns
      calc s'.page (swapAddress S (c.shared.nextFrame S))
        _ = evictedBlock S c.shared (pageOf st'.s_asid) 0 (ID - 1) := hcontents.2
        _ = _ := evictedBlock_eq hinv (pageOf st'.s_asid) ID
        _ = _ := by rw [lastWritten_eq hapart hmem hinv'.evicted]; rfl

/-- The first process stores to its first page, loses it to its second page, and faults on it
again. -/
def evictingRun : List (PagingEvent Bool) :=
  [.fault 1 firstFault, .serve 1 true, .store 1 SEG2 true, .fault 1 secondFault, .serve 1 true,
    .fault 1 firstFault]

def evictedPaging : Paging Bool := (pagingScript Bool .small).play (coldPaging false) evictingRun

/-- What has happened until the fault is served. -/
def evictedHistory : List (Paging Bool × PagingEvent Bool) :=
  (pagingScript Bool .small).history (coldPaging false) evictingRun []

def reloadedPaging : Paging Bool := (pagingScript Bool .small).next evictedPaging (.serve 1 true)

theorem evicted_trace : (pagingSystem Bool .small).Trace
    ((evictedPaging, .serve 1 true) :: evictedHistory) reloadedPaging := by
  have hevicted : (pagingSystem Bool .small).Trace evictedHistory evictedPaging :=
    pagingScript_follows.trace (.init (coldPaging_cold false)) (by decide +kernel)
  exact hevicted.step (pagingScript_follows evictedPaging (.serve 1 true) (by decide +kernel))

/-- The page that is brought in again has what had been stored to it. -/
theorem contents_of_run_small :
    lastEvicted (pteOf 1 SEG2) (evictions .small evictedHistory) = some true ∧
    Restored .small ((evictedPaging, .serve 1 true) :: evictedHistory) evictedPaging 1 SEG2
      reloadedPaging ∧
    reloadedPaging.shared.page (swapAddress .small 0) = true := by
  have hasid : (evictedPaging.pending 1).map State.s_asid = some SEG2 := by decide +kernel
  obtain ⟨st, hpending, hst⟩ := Option.map_eq_some_iff.mp hasid
  have hapart : BlocksApart (servedFaults ((evictedPaging, .serve 1 true) :: evictedHistory)) := by
    decide +kernel
  have hready : AllReady ((evictedPaging, .serve 1 true) :: evictedHistory) := by decide +kernel
  have hrestored := contents_of_run evicted_trace hapart hready hpending
  rw [hst] at hrestored
  exact ⟨by decide +kernel, hrestored, by decide +kernel⟩

/-- A page of `kUseg2` is stored to and evicted; then the page of `kUseg3` with the
same number has its contents. -/
theorem not_always_contents : ¬ ∀ (β : Type) (S : Setup) (ID : Word) (st : State) (ready : Bool)
    (l : List (Paging β × PagingEvent β)) (c c' : Paging β),
    (pagingSystem β S).Trace ((c, .serve ID ready) :: l) c' → c.pending ID = some st →
    Restored S ((c, .serve ID ready) :: l) c ID st.s_asid c' := by
  intro hall
  let events : List (PagingEvent Bool) :=
    [.fault 1 firstFault, .serve 1 true, .store 1 SEG2 true, .fault 1 sharedFault]
  let c := (pagingScript Bool .small).play (coldPaging false) events
  have htrace : (pagingSystem Bool .small).Trace
      ((pagingScript Bool .small).history (coldPaging false) events []) c :=
    pagingScript_follows.trace (.init (coldPaging_cold false)) (by decide +kernel)
  have hserve := pagingScript_follows (S := .small) c (.serve 1 true) (by decide +kernel)
  have hasid : (c.pending 1).map State.s_asid = some SEG3 := by decide +kernel
  obtain ⟨st, hpending, hst⟩ := Option.map_eq_some_iff.mp hasid
  have hrestored := hall _ _ _ _ _ _ _ _ (htrace.step hserve) hpending
  rw [hst, Restored] at hrestored
  exact absurd hrestored (by decide +kernel)

end Kaya
