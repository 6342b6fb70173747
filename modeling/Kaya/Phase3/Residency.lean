import Kaya.Phase3.UserMemory
import Mathlib.Data.Nat.ModEq

open Exec Prog

namespace Kaya

open Phase3

variable {β : Type} {S : Setup} {s s' : Phase3 β} {ID a : Word} {st : State} {ready : Bool} {i j : Nat}
  {c c' : Paging β} {e : PagingEvent β} {l : List (Paging β × PagingEvent β)}

/-- The frames hold the pages of the faults that were served last, the frame that was
filled `j` faults ago the page of that fault. -/
structure Recent (S : Setup) (l : List (Paging β × PagingEvent β)) (c : Paging β) : Prop where
  faults : ∀ f ∈ servedFaults l, S.IsProcess f.1 ∧ segmentOf f.2 ≠ 3
  loaded : ∀ i < S.SWAPSIZE, ∀ j < S.SWAPSIZE, i + j ≡ c.shared.next [MOD S.SWAPSIZE] → ∀ f,
    (servedFaults l)[j]? = some f → c.ended f.1 = false → c.shared.swapPool i = swapEntry f.1 f.2
  occupied : ∀ i < S.SWAPSIZE, ∀ j < S.SWAPSIZE, i + j ≡ c.shared.next [MOD S.SWAPSIZE] →
    c.shared.Occupied i → ∃ f, (servedFaults l)[j]? = some f ∧ c.shared.swapPool i = swapEntry f.1 f.2

/-- The pager moves on by one frame. -/
theorem runs_next (hst : MissingPage st)
    (h : RunsAlone S ready ID (vmMemHandler S st ID) s (some ()) s') : s'.next = s.nextFrame S := by
  obtain ⟨s₁, s₂, hevict, hread, rfl⟩ := runs_vmMemHandler hst h
  have hs₁ : s₁.next = s.nextFrame S := by
    rcases runs_evict hevict with ⟨-, rfl⟩ | ⟨-, hwrite⟩
    · rfl
    · rw [(runs_backing_sameTables hwrite).next, unmapped]
      generalize (({ s with next := s.nextFrame S } : Phase3 β).swapPool _).sw_pte = p
      cases p <;> rfl
  rw [validated]
  cases pteOf ID st.s_asid <;> exact (runs_backing_sameTables hread).next.trans hs₁

theorem servedFaults_serve (hpending : c.pending ID = some st) :
    servedFaults ((c, .serve ID ready) :: l) = (ID, st.s_asid) :: servedFaults l := by
  simp only [servedFaults, hpending]

/-- The next frame is the one that was filled longest ago. -/
theorem modEq_nextFrame (hi : i < S.SWAPSIZE) :
    i ≡ s.nextFrame S [MOD S.SWAPSIZE] ↔ i = s.nextFrame S :=
  ⟨fun h => h.eq_of_lt_of_lt hi nextFrame_lt, fun h => h ▸ Nat.ModEq.refl _⟩

theorem modEq_next_succ : i + (j + 1) ≡ s.nextFrame S [MOD S.SWAPSIZE] ↔
    i + j ≡ s.next [MOD S.SWAPSIZE] := by
  have hnext : s.nextFrame S ≡ s.next + 1 [MOD S.SWAPSIZE] := Nat.mod_modEq _ _
  rw [← Nat.add_assoc]
  exact ⟨fun h => (h.trans hnext).add_right_cancel' 1, fun h => (h.add_right 1).trans hnext.symm⟩

theorem ne_nextFrame (hj : j + 1 < S.SWAPSIZE) (h : i + (j + 1) ≡ s.nextFrame S [MOD S.SWAPSIZE]) :
    i ≠ s.nextFrame S := by
  rintro rfl
  have hzero : j + 1 ≡ 0 [MOD S.SWAPSIZE] := h.add_left_cancel' (s.nextFrame S)
  have heq := hzero.eq_of_lt_of_lt hj S.frames
  omega

theorem Paging.Cold.recent (h : c.Cold S) : Recent S [] c := by
  refine ⟨fun f hf => absurd hf List.not_mem_nil, fun i _ j _ _ f hf => ?_,
    fun i hi j _ _ hoccupied => ?_⟩
  · exact absurd hf (by simp [servedFaults])
  · exact absurd hoccupied (h.frames i hi)

/-- One more fault served. -/
theorem Recent.serve (h : Recent S l c) (hpending : c.pending ID = some st) (hID : S.IsProcess ID)
    (hseg : segmentOf st.s_asid ≠ 3) (hserved : Served S ID st.s_asid c.shared s')
    (hnext : s'.next = c.shared.nextFrame S) (hshared : c'.shared = s') (hended : c'.ended = c.ended) :
    Recent S ((c, .serve ID ready) :: l) c' := by
  have hcons : servedFaults ((c, .serve ID ready) :: l) = _ := servedFaults_serve hpending
  refine ⟨?_, fun i hi j hj hmod => ?_, fun i hi j hj hmod => ?_⟩
  · rw [hcons]
    intro f hf
    rcases List.mem_cons.mp hf with rfl | hf
    · exact ⟨hID, hseg⟩
    · exact h.faults f hf
  all_goals
    rw [hshared, hnext] at hmod
    rw [hcons, hshared]
  · rw [hended, hserved.swapPool]
    intro f hf hlive
    cases j with
    | zero =>
      obtain rfl := (modEq_nextFrame hi).mp hmod
      obtain rfl : (ID, st.s_asid) = f := by simpa using hf
      exact Function.update_self _ _ _
    | succ j =>
      rw [Function.update_of_ne (ne_nextFrame hj hmod)]
      exact h.loaded i hi j (by omega) (modEq_next_succ.mp hmod) f (by simpa using hf) hlive
  · intro hoccupied
    cases j with
    | zero =>
      obtain rfl := (modEq_nextFrame hi).mp hmod
      exact ⟨(ID, st.s_asid), rfl, by rw [hserved.swapPool, Function.update_self]⟩
    | succ j =>
      have hsame : s'.swapPool i = c.shared.swapPool i := by
        rw [hserved.swapPool, Function.update_of_ne (ne_nextFrame hj hmod)]
      rw [Occupied, hsame] at hoccupied
      rw [hsame]
      obtain ⟨f, hf, hswap⟩ := h.occupied i hi j (by omega) (modEq_next_succ.mp hmod) hoccupied
      exact ⟨f, by simpa using hf, hswap⟩

/-- The end of a process, which gives its frames back. -/
theorem Recent.terminate (h : Recent S l c) (hreleased : Released ID c.shared s') :
    Recent S ((c, .terminate ID) :: l)
      { c with shared := s', ended := Function.update c.ended ID true } := by
  have hnext : s'.next = c.shared.next := by rw [hreleased.others]
  refine ⟨h.faults, fun i hi j hj hmod f hf hlive => ?_, fun i hi j hj hmod hoccupied => ?_⟩
  · have hother : f.1 ≠ ID := by
      rintro rfl
      simp at hlive
    have hswap := h.loaded i hi j hj (hnext ▸ hmod) f hf (by simpa [hother] using hlive)
    refine Eq.trans ((hreleased.frames i).resolve_right fun howned => hother ?_) hswap
    rw [← howned.1, hswap]
    rfl
  · have hoccupied : s'.Occupied i := hoccupied
    rcases hreleased.frames i with hsame | ⟨-, hfree⟩
    · rw [Occupied, hsame] at hoccupied
      obtain ⟨f, hf, hswap⟩ := h.occupied i hi j hj (hnext ▸ hmod) hoccupied
      exact ⟨f, hf, hsame.trans hswap⟩
    · rw [Occupied, hfree] at hoccupied
      exact absurd rfl hoccupied

theorem Recent.step (h : Recent S l c) (hpages : PrivatePages S c) (hstep : Paging.Step S c e c') :
    Recent S ((c, e) :: l) c' := by
  cases hstep with
  | fault _ _ _ _ => exact ⟨h.faults, h.loaded, h.occupied⟩
  | serve hpending hruns =>
    obtain ⟨hID, hmissing, hseg, -⟩ := hpages.faults _ _ hpending
    exact h.serve hpending hID hseg (runs_served hmissing hruns) (runs_next hmissing hruns) rfl rfl
  | store _ _ _ => exact ⟨h.faults, h.loaded, h.occupied⟩
  | terminate _ hruns => exact h.terminate (runs_meIRL hruns)

theorem recent_of_run (h : ((pagingSystem β S).restrict Private).Trace l c) :
    PrivatePages S c ∧ Recent S l c := by
  induction h with
  | init hcold => exact ⟨Paging.Cold.privatePages hcold, Paging.Cold.recent hcold⟩
  | step _ hstep ih => exact ⟨ih.1.step hstep.1 hstep.2, ih.2.step ih.1 hstep.1⟩

/-- The age of a frame: how many faults ago it was filled. -/
theorem exists_age (s : Phase3 β) (hi : i < S.SWAPSIZE) :
    ∃ j < S.SWAPSIZE, i + j ≡ s.next [MOD S.SWAPSIZE] := by
  refine ⟨(s.next + (S.SWAPSIZE - i)) % S.SWAPSIZE, Nat.mod_lt _ S.frames, ?_⟩
  calc i + (s.next + (S.SWAPSIZE - i)) % S.SWAPSIZE
    _ ≡ i + (s.next + (S.SWAPSIZE - i)) [MOD S.SWAPSIZE] := (Nat.mod_modEq _ _).add_left i
    _ = s.next + S.SWAPSIZE := by omega
    _ ≡ s.next [MOD S.SWAPSIZE] := by simp [Nat.ModEq]

/-- The frame that was filled `j` faults ago. -/
theorem exists_frame (s : Phase3 β) (hj : j < S.SWAPSIZE) :
    ∃ i < S.SWAPSIZE, i + j ≡ s.next [MOD S.SWAPSIZE] := by
  obtain ⟨i, hi, hmod⟩ := exists_age s hj
  exact ⟨i, hi, Nat.add_comm j i ▸ hmod⟩

/-- In every run without accesses to `kUseg3` the pages of a process that are mapped
are those of the last `SWAPSIZE` faults: the swap pool is a first-in first-out queue. -/
theorem mapped_iff_recent (h : ((pagingSystem β S).restrict Private).Trace l c)
    (hlive : c.ended ID = false) (hseg : segmentOf a ≠ 3) :
    c.shared.IsValid (pteOf ID a) ↔
      ∃ f ∈ (servedFaults l).take S.SWAPSIZE, f.1 = ID ∧ pageOf f.2 = pageOf a := by
  obtain ⟨hpages, hrecent⟩ := recent_of_run h
  have hpte : ∀ f ∈ servedFaults l, (swapEntry f.1 f.2).sw_pte = .uProc_pte f.1 (pageOf f.2) :=
    fun f hf => pteOf_private (hrecent.faults f hf).2
  rw [pteOf_private hseg]
  constructor
  · intro hvalid
    obtain ⟨i, hi, hholds⟩ := hpages.entries ID (pageOf a) hlive hvalid
    obtain ⟨j, hj, hmod⟩ := exists_age c.shared hi
    obtain ⟨f, hf, hswap⟩ := hrecent.occupied i hi j hj hmod hholds.1
    have hmem : f ∈ servedFaults l := List.mem_of_getElem? hf
    have heq : PtePtr.uProc_pte f.1 (pageOf f.2) = .uProc_pte ID (pageOf a) := by
      rw [← hpte f hmem, ← hswap]
      exact hholds.2
    refine ⟨f, ?_, PtePtr.uProc_pte.inj heq⟩
    exact List.mem_of_getElem? ((List.getElem?_take_of_lt hj).trans hf)
  · rintro ⟨f, hf, rfl, hpage⟩
    obtain ⟨j, hj, hget⟩ := List.mem_iff_getElem.mp hf
    have hlt : j < S.SWAPSIZE := by
      rw [List.length_take] at hj
      omega
    have hf' : (servedFaults l)[j]? = some f := by
      rw [← List.getElem?_take_of_lt hlt, List.getElem?_eq_getElem hj, hget]
    have hmem : f ∈ servedFaults l := List.mem_of_getElem? hf'
    obtain ⟨i, hi, hmod⟩ := exists_frame c.shared hlt
    have hswap := hrecent.loaded i hi j hlt hmod f hf' hlive
    have hholds : c.shared.Holds i (.uProc_pte f.1 (pageOf a)) := by
      rw [Holds, Occupied, hswap, hpte f hmem, hpage]
      exact ⟨(hrecent.faults f hmem).1.ne_neg_one, rfl⟩
    exact (hpages.owner hi hholds).2.2.1

/-- The steps of the run in which two processes share a frame. -/
def sharingHistory : List (Paging Bool × PagingEvent Bool) :=
  ((pagingScript Bool .small).restrict Private).history (coldPaging false) sharingRun []

/-- The first process has its page, and the second one has lost its own. -/
theorem mapped_iff_recent_small :
    sharedFrame.shared.IsValid (pteOf 1 SEG2) ∧ ¬ sharedFrame.shared.IsValid (pteOf 2 SEG2) ∧
    servedFaults sharingHistory = [(1, SEG2), (2, SEG2), (1, SEG2)] ∧
    ∀ ID, ID = 1 ∨ ID = 2 → (sharedFrame.shared.IsValid (pteOf ID SEG2) ↔
      ∃ f ∈ (servedFaults sharingHistory).take Setup.small.SWAPSIZE,
        f.1 = ID ∧ pageOf f.2 = pageOf SEG2) := by
  have htrace : ((pagingSystem Bool .small).restrict Private).Trace sharingHistory sharedFrame :=
    pagingScript_follows.restrict.trace (.init (coldPaging_cold false)) (by decide +kernel)
  refine ⟨by decide +kernel, by decide +kernel, by decide +kernel, ?_⟩
  rintro ID (rfl | rfl)
  · exact mapped_iff_recent htrace (by decide +kernel) (by decide)
  · exact mapped_iff_recent htrace (by decide +kernel) (by decide)

end Kaya
