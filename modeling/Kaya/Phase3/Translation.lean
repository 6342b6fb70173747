import Kaya.Phase3.PageTables
import Kaya.Phase3.Residency

open Exec

namespace Kaya

open Phase3

variable {β : Type} {S : Setup} {s : Phase3 β} {ID a asid : Word} {t : PageTable} {n i k : Nat}
  {store : Bool}

/-! What `test` sets up. -/

theorem fill_apply {α : Type} (v f : Nat → α) : fill n v f i = if i < n then v i else f i := by
  induction n with
  | zero => rfl
  | succ n ih =>
    have hsucc : fill (n + 1) v f = Function.update (fill n v f) n (v n) := by
      simp only [fill, List.range_succ, List.foldl_append]
      rfl
    rw [hsucc, Function.update_apply, ih]
    by_cases hi : i = n
    · rw [if_pos hi, if_pos (by omega), hi]
    · rw [if_neg hi]
      exact if_congr (by omega) rfl rfl

/-- The loop over the processes. -/
def setupProcesses (g : Globals) (n : Nat) : Globals :=
  (List.range n).foldl (fun g k => setupProcess g (k + 1)) g

theorem setupProcesses_succ (g : Globals) :
    setupProcesses g (n + 1) = setupProcess (setupProcesses g n) (n + 1) := by
  simp only [setupProcesses, List.range_succ, List.foldl_append]
  rfl

/-- The tables of the processes after the loop; nothing else has changed. -/
structure ProcessesSet (n : Nat) (g g' : Globals) : Prop where
  kuSegOS : g'.kuSegOS = g.kuSegOS
  kuSeg3 : g'.kuSeg3 = g.kuSeg3
  swapPool : g'.swapPool = g.swapPool
  uProc_pte : ∀ k, g'.uProc_pte k =
    if k < n then setupUProcPte (k + 1) (g.uProc_pte k) else g.uProc_pte k
  segTbl : ∀ i, 1 ≤ i → i ≤ n → g'.segTbl i = ⟨.kuSegOS, .uProc_pte (i - 1), .kuSeg3⟩

theorem processesSet (g : Globals) : ProcessesSet n g (setupProcesses g n) := by
  induction n with
  | zero => exact ⟨rfl, rfl, rfl, fun _ => rfl, fun i hlo hhi => by omega⟩
  | succ n ih =>
    rw [setupProcesses_succ]
    refine ⟨ih.kuSegOS, ih.kuSeg3, ih.swapPool, fun k => ?_, fun i hlo hhi => ?_⟩
    · simp only [setupProcess, Nat.add_sub_cancel, Function.update_apply]
      by_cases hk : k = n
      · have hnew := ih.uProc_pte n
        rw [if_neg (Nat.lt_irrefl n)] at hnew
        rw [if_pos hk, if_pos (by omega), hnew, hk]
      · rw [if_neg hk, ih.uProc_pte]
        exact if_congr (by omega) rfl rfl
    · simp only [setupProcess, Function.update_apply]
      by_cases hi : i = n + 1
      · rw [if_pos hi, hi]
      · rw [if_neg hi]
        exact ih.segTbl i hlo (by omega)

/-! Numbers of pages, segments and address spaces. -/

theorem entryPage_toNat {page : Nat} (hpage : page < 2 ^ 20) :
    (entryPage page).toNat = page * 4096 := by
  simp only [entryPage, BitVec.toNat_shiftLeft, BitVec.toNat_ofNat, Nat.shiftLeft_eq]
  omega

theorem asid_toNat (hi : i < 64) : (BitVec.ofNat 32 i <<< 6).toNat = i * 64 := by
  simp only [BitVec.toNat_shiftLeft, BitVec.toNat_ofNat, Nat.shiftLeft_eq]
  omega

theorem entryHI_page {page : Nat} (hpage : page < 2 ^ 20) (hi : i < 64) :
    (entryPage page ||| (BitVec.ofNat 32 i <<< 6)) >>> 12 = BitVec.ofNat 32 page := by
  have hlow : (BitVec.ofNat 32 i <<< 6) >>> 12 = 0#32 := by
    apply BitVec.eq_of_toNat_eq
    rw [BitVec.toNat_ushiftRight, asid_toNat hi, Nat.shiftRight_eq_div_pow]
    simp only [BitVec.toNat_ofNat]
    omega
  have hhigh : entryPage page >>> 12 = BitVec.ofNat 32 page := by
    apply BitVec.eq_of_toNat_eq
    rw [BitVec.toNat_ushiftRight, entryPage_toNat hpage, Nat.shiftRight_eq_div_pow]
    simp only [BitVec.toNat_ofNat]
    omega
  rw [BitVec.ushiftRight_or_distrib, hhigh, hlow, BitVec.or_zero]

theorem entryHI_asid {page : Nat} (hpage : page < 2 ^ 20) (hi : i < 64) :
    ((entryPage page ||| (BitVec.ofNat 32 i <<< 6)) &&& GET_ASID) >>> 6 = BitVec.ofNat 32 i := by
  have hpage : entryPage page &&& GET_ASID = 0#32 := by
    have hlow : entryPage page &&& 0xFFF = 0#32 := by
      apply BitVec.eq_of_toNat_eq
      rw [BitVec.toNat_and, entryPage_toNat hpage]
      change _ &&& (2 ^ 12 - 1) = 0
      rw [Nat.and_two_pow_sub_one_eq_mod]
      omega
    rw [show GET_ASID = 0xFFF &&& GET_ASID from rfl, ← BitVec.and_assoc, hlow, BitVec.zero_and]
  have hasid : ∀ i < 64, ((BitVec.ofNat 32 i <<< 6) &&& GET_ASID) >>> 6 = BitVec.ofNat 32 i := by
    decide
  rw [BitVec.and_or_distrib_right, hpage, BitVec.zero_or, hasid i hi]

theorem segmentOf_toNat : (segmentOf a).toNat = a.toNat / 2 ^ 30 := by
  have hlt := a.isLt
  have hmask : GET_SEG >>> 30 = 3#32 := rfl
  rw [segmentOf, BitVec.ushiftRight_and_distrib, hmask, BitVec.toNat_and, BitVec.toNat_ushiftRight,
    Nat.shiftRight_eq_div_pow]
  change _ &&& (2 ^ 2 - 1) = _
  rw [Nat.and_two_pow_sub_one_eq_mod]
  omega

theorem missingPage_toNat : ((a &&& GET_VPN) >>> 12).toNat = a.toNat / 4096 % 2 ^ 18 := by
  have hmask : GET_VPN >>> 12 = 0x3FFFF#32 := rfl
  rw [BitVec.ushiftRight_and_distrib, hmask, BitVec.toNat_and, BitVec.toNat_ushiftRight,
    Nat.shiftRight_eq_div_pow]
  change _ &&& (2 ^ 18 - 1) = _
  rw [Nat.and_two_pow_sub_one_eq_mod]

theorem pageOf_toNat : (pageOf a).toNat =
    if 32 ≤ a.toNat / 4096 % 2 ^ 18 then 31 else a.toNat / 4096 % 2 ^ 18 := by
  unfold pageOf
  dsimp only
  have hle : BitVec.ofNat 32 KUSEGSIZE ≤ (a &&& GET_VPN) >>> 12 ↔ 32 ≤ a.toNat / 4096 % 2 ^ 18 := by
    rw [← missingPage_toNat]
    exact Iff.rfl
  by_cases h : 32 ≤ a.toNat / 4096 % 2 ^ 18
  · rw [if_pos (hle.mpr h), if_pos h]
    rfl
  · rw [if_neg (hle.not.mpr h), if_neg h, missingPage_toNat]

/-- The page that entry `j` of a `kUseg2` is for. -/
def kuseg2Page (j : Nat) : Nat := if j = KUSEGSIZE - 1 then 0xBFFFF else 0x80000 + j

/-- The page of a user address has an entry in its table. -/
def Listed (a : Word) : Prop :=
  if segmentOf a = 3 then (a &&& GET_VPN) >>> 12 < 32
  else (a &&& GET_VPN) >>> 12 < 31 ∨ (a &&& GET_VPN) >>> 12 = 0x3FFFF

instance (a : Word) : Decidable (Listed a) := inferInstanceAs (Decidable (ite _ _ _))

theorem segmentOf_eq_three : segmentOf a = 3 ↔ SEG3 ≤ a := by
  have hlt := a.isLt
  have hle : SEG3 ≤ a ↔ 0xC0000000 ≤ a.toNat := Iff.rfl
  have hthree : segmentOf a = 3 ↔ (segmentOf a).toNat = 3 := BitVec.toNat_inj.symm
  rw [hthree, hle, segmentOf_toNat]
  omega

theorem listed_kuseg3 (hlo : SEG3 ≤ a) : Listed a ↔ a.toNat / 4096 % 2 ^ 18 < 32 := by
  rw [Listed, if_pos (segmentOf_eq_three.mpr hlo), ← missingPage_toNat]
  exact Iff.rfl

theorem listed_kuseg2 (hhi : a < SEG3) :
    Listed a ↔ a.toNat / 4096 % 2 ^ 18 < 31 ∨ a.toNat / 4096 % 2 ^ 18 = 0x3FFFF := by
  have hlast : (a &&& GET_VPN) >>> 12 = 0x3FFFF ↔ ((a &&& GET_VPN) >>> 12).toNat = 0x3FFFF :=
    BitVec.toNat_inj.symm
  rw [Listed, if_neg (segmentOf_eq_three.not.mpr (not_le.mpr hhi)), hlast, missingPage_toNat]
  exact or_congr_left (by rw [← missingPage_toNat]; exact Iff.rfl)

/-- The entry of the pager is the one that lists the page. -/
theorem kuseg2Page_iff (hlo : SEG2 ≤ a) (hhi : a < SEG3) (hi : i < KUSEGSIZE) :
    kuseg2Page i = a.toNat / 4096 ↔ Listed a ∧ i = (pageOf a).toNat := by
  have hlo : 0x80000000 ≤ a.toNat := hlo
  rw [listed_kuseg2 hhi, pageOf_toNat]
  have hhi : a.toNat < 0xC0000000 := hhi
  have hi : i < 32 := hi
  unfold kuseg2Page
  split <;> split <;> simp only [KUSEGSIZE] at * <;> omega

theorem kuseg3Page_iff (hlo : SEG3 ≤ a) (hi : i < KUSEGSIZE) :
    0xC0000 + i = a.toNat / 4096 ↔ Listed a ∧ i = (pageOf a).toNat := by
  have hlt := a.isLt
  rw [listed_kuseg3 hlo, pageOf_toNat]
  have hlo : 0xC0000000 ≤ a.toNat := hlo
  have hi : i < 32 := hi
  split <;> omega

/-! What the processor finds. -/

theorem PteEntry.matches_iff {e : PteEntry} {page : Nat}
    (hentry : e.entryHI = entryPage page ||| (BitVec.ofNat 32 i <<< 6)) (hpage : page < 2 ^ 20)
    (hi : i < 64) : e.Matches asid a ↔ page = a.toNat / 4096 ∧
      (e.entryLO &&& GLOBAL = GLOBAL ∨ BitVec.ofNat 32 i = asid) := by
  have hlt := a.isLt
  have haddr : BitVec.ofNat 32 page = a >>> 12 ↔ page = a.toNat / 4096 := by
    rw [← BitVec.toNat_inj, BitVec.toNat_ushiftRight, Nat.shiftRight_eq_div_pow, BitVec.toNat_ofNat]
    omega
  rw [PteEntry.Matches, hentry, entryHI_page hpage hi, entryHI_asid hpage hi, haddr]

theorem PageTable.access_listed (store : Bool) (hheader : t.header = tableHeader KUSEGSIZE)
    (hi : i < KUSEGSIZE) (hmatch : (t.pteTable i).Matches asid a)
    (hunique : ∀ j < KUSEGSIZE, (t.pteTable j).Matches asid a → j = i) :
    t.access asid a store = (t.pteTable i).access store := by
  have hfind : t.find asid a = some i := by
    rw [PageTable.find, hheader, List.find?_range_eq_some]
    refine ⟨by simpa using hmatch, List.mem_range.mpr hi, fun j hj => ?_⟩
    have hne : ¬ (t.pteTable j).Matches asid a := fun hmatch' => by
      have hji := hunique j (by omega) hmatch'
      omega
    simpa using hne
  rw [PageTable.access, hheader, hfind, if_neg (by decide)]

theorem PageTable.access_unlisted (hheader : t.header = tableHeader KUSEGSIZE)
    (hnone : ∀ j < KUSEGSIZE, ¬ (t.pteTable j).Matches asid a) : t.access asid a store = .PTMs := by
  have hfind : t.find asid a = none := by
    rw [PageTable.find, hheader, List.find?_eq_none]
    intro j hj
    simpa using hnone j (List.mem_range.mp hj)
  rw [PageTable.access, hheader, hfind, if_neg (by decide)]

/-- The tables as they are in a run: those of `test` with the values of the pager. -/
def tables (S : Setup) (s : Phase3 β) : Globals := (Globals.booted S).update s

/-- An entry of the pager, as the processor sees it. -/
def Phase3.leads (s : Phase3 β) (p : PtePtr) (store : Bool) : Access :=
  PteEntry.access ⟨0, s.entryLO p⟩ store

/-- What the variables are before the loop over the processes. -/
theorem booted_set : ∃ g, ProcessesSet S.MAXUSERPROC g (Globals.booted S) ∧
    g.kuSeg3 = setupKuSeg3 .zero ∧ (g.uProc_pte = fun _ => PageTable.zero) ∧
    ∀ i < S.SWAPSIZE, g.swapPool i = ⟨-1, 0, 0, .null⟩ :=
  ⟨_, processesSet _, rfl, rfl, fun _ hi => (fill_apply _ _).trans (if_pos hi)⟩

theorem kuseg2_entryHI (hj : i < KUSEGSIZE) : ((setupUProcPte k t).pteTable i).entryHI =
    entryPage (kuseg2Page i) ||| (BitVec.ofNat 32 k <<< 6) := by
  simp only [setupUProcPte, kuseg2Page, Function.update_apply]
  by_cases hi : i = KUSEGSIZE - 1
  · rw [if_pos hi, if_pos hi]
  · rw [if_neg hi, if_neg hi, fill_apply, if_pos hj]

theorem kuseg2Page_lt (hi : i < KUSEGSIZE) : kuseg2Page i < 2 ^ 20 := by
  have hi : i < 32 := hi
  unfold kuseg2Page
  split <;> omega

/-- A process finds the listed pages of its own `kUseg2`. -/
theorem access_kuseg2 (hID : S.IsProcess ID) (hlo : SEG2 ≤ a) (hhi : a < SEG3) :
    (tables S s).access ID a store =
      if Listed a then s.leads (.uProc_pte ID (pageOf a)) store else .PTMs := by
  obtain ⟨g, hset, -, hzero, -⟩ := booted_set (S := S)
  have hle := hID.le
  have hmax : S.MAXUSERPROC ≤ 20 := S.processes
  have hpred : ID.toNat - 1 + 1 = ID.toNat := by omega
  have hword : BitVec.ofNat 32 ID.toNat = ID := by rw [BitVec.ofNat_toNat, BitVec.setWidth_eq]
  have htable : (Globals.booted S).uProc_pte (ID.toNat - 1) = setupUProcPte ID.toNat .zero := by
    rw [hset.uProc_pte, if_pos (by omega), hpred, hzero]
  have hseg : ((tables S s).segTbl ID.toNat).tableFor a = .uProc_pte (ID.toNat - 1) := by
    rw [show (tables S s).segTbl = (Globals.booted S).segTbl from rfl, hset.segTbl _ hle.1 hle.2,
      SegTbl.tableFor, if_neg (not_lt.mpr hlo), if_pos hhi]
  have hheader : ((tables S s).uProc_pte (ID.toNat - 1)).header = tableHeader KUSEGSIZE :=
    congrArg PageTable.header htable
  have hentry : ∀ j < KUSEGSIZE, (((tables S s).uProc_pte (ID.toNat - 1)).pteTable j).Matches ID a ↔
      Listed a ∧ j = (pageOf a).toNat := by
    intro j hj
    have hHI : (((tables S s).uProc_pte (ID.toNat - 1)).pteTable j).entryHI =
        entryPage (kuseg2Page j) ||| (BitVec.ofNat 32 ID.toNat <<< 6) := by
      rw [← kuseg2_entryHI (t := .zero) hj, ← htable]
      rfl
    rw [PteEntry.matches_iff hHI (kuseg2Page_lt hj) (by omega), kuseg2Page_iff hlo hhi hj,
      and_iff_left (.inr hword)]
  rw [Globals.access, hseg]
  by_cases hlisted : Listed a
  · have hfound := PageTable.access_listed store hheader pageOf_lt
      ((hentry _ pageOf_lt).mpr ⟨hlisted, rfl⟩) fun j hj hmatch => ((hentry j hj).mp hmatch).2
    rw [if_pos hlisted]
    refine hfound.trans ?_
    simp only [tables, Globals.update, hpred, hword, BitVec.ofNat_toNat, BitVec.setWidth_eq]
    rfl
  · rw [if_neg hlisted]
    exact PageTable.access_unlisted hheader fun j hj hmatch => hlisted ((hentry j hj).mp hmatch).1

/-- Every process finds the listed pages of `kUseg3` that are marked as global. -/
theorem access_kuseg3 (hID : S.IsProcess ID) (hlo : SEG3 ≤ a) :
    (tables S s).access ID a store =
      if Listed a ∧ s.kuSeg3 (pageOf a) &&& GLOBAL = GLOBAL then s.leads (.kuSeg3 (pageOf a)) store
      else .PTMs := by
  obtain ⟨g, hset, hseg3, -⟩ := booted_set (S := S)
  have hle := hID.le
  have hSEG2 : SEG2 ≤ a := le_trans (by decide) hlo
  have hzero : BitVec.ofNat 32 0 ≠ ID := by
    rintro rfl
    exact absurd hle.1 (by decide)
  have hseg : ((tables S s).segTbl ID.toNat).tableFor a = .kuSeg3 := by
    rw [show (tables S s).segTbl = (Globals.booted S).segTbl from rfl, hset.segTbl _ hle.1 hle.2,
      SegTbl.tableFor, if_neg (not_lt.mpr hSEG2), if_neg (not_lt.mpr hlo)]
  have htable : (Globals.booted S).kuSeg3 = setupKuSeg3 .zero := hset.kuSeg3.trans hseg3
  have hheader : (tables S s).kuSeg3.header = tableHeader KUSEGSIZE :=
    congrArg PageTable.header htable
  have hentry : ∀ j < KUSEGSIZE, ((tables S s).kuSeg3.pteTable j).Matches ID a ↔
      (Listed a ∧ j = (pageOf a).toNat) ∧ s.kuSeg3 (BitVec.ofNat 32 j) &&& GLOBAL = GLOBAL := by
    intro j hj
    have hHI : ((tables S s).kuSeg3.pteTable j).entryHI =
        entryPage (0xC0000 + j) ||| (BitVec.ofNat 32 0 <<< 6) := by
      show (((Globals.booted S).kuSeg3).pteTable j).entryHI = _
      rw [htable]
      simp only [setupKuSeg3, fill_apply, if_pos hj]
      rfl
    have hj' : j < 32 := hj
    rw [PteEntry.matches_iff hHI (by omega) (by decide), kuseg3Page_iff hlo hj,
      or_iff_left hzero]
    rfl
  rw [Globals.access, hseg]
  have hindex : BitVec.ofNat 32 (pageOf a).toNat = pageOf a := by
    rw [BitVec.ofNat_toNat, BitVec.setWidth_eq]
  by_cases hfinds : Listed a ∧ s.kuSeg3 (pageOf a) &&& GLOBAL = GLOBAL
  · have hmatch := (hentry _ pageOf_lt).mpr ⟨⟨hfinds.1, rfl⟩, hindex.symm ▸ hfinds.2⟩
    have hfound := PageTable.access_listed store hheader pageOf_lt hmatch
      fun j hj hmatch => ((hentry j hj).mp hmatch).1.2
    rw [if_pos hfinds]
    refine hfound.trans ?_
    simp only [tables, Globals.update, hindex]
    rfl
  · rw [if_neg hfinds]
    refine PageTable.access_unlisted hheader fun j hj hmatch => hfinds ?_
    obtain ⟨⟨hlisted, rfl⟩, hglobal⟩ := (hentry j hj).mp hmatch
    exact ⟨hlisted, hindex ▸ hglobal⟩

/-- There is an entry for the address: the page is listed, and if it is shared it is still
marked as such. -/
def Finds (s : Phase3 β) (a : Word) : Prop :=
  Listed a ∧ (SEG3 ≤ a → s.kuSeg3 (pageOf a) &&& GLOBAL = GLOBAL)

/-- The entry that the processor finds for a user address is the one that the pager fills
in for it. -/
theorem access_user (store : Bool) (hID : S.IsProcess ID) (hlo : SEG2 ≤ a) :
    (Finds s a ∧ (tables S s).access ID a store = s.leads (pteOf ID a) store) ∨
      (¬ Finds s a ∧ (tables S s).access ID a store = .PTMs) := by
  by_cases hfinds : Finds s a
  · refine .inl ⟨hfinds, ?_⟩
    by_cases hhi : a < SEG3
    · have hseg : segmentOf a ≠ 3 := segmentOf_eq_three.not.mpr (not_le.mpr hhi)
      rw [access_kuseg2 hID hlo hhi, if_pos hfinds.1, pteOf_private hseg]
    · have hthree : SEG3 ≤ a := not_lt.mp hhi
      rw [access_kuseg3 hID hthree, if_pos ⟨hfinds.1, hfinds.2 hthree⟩, pteOf,
        if_pos (segmentOf_eq_three.mpr hthree)]
  · refine .inr ⟨hfinds, ?_⟩
    by_cases hhi : a < SEG3
    · rw [access_kuseg2 hID hlo hhi, if_neg]
      exact fun hlisted => hfinds ⟨hlisted, fun hthree => absurd hhi (not_lt.mpr hthree)⟩
    · rw [access_kuseg3 hID (not_lt.mp hhi), if_neg]
      exact fun hfound => hfinds ⟨hfound.1, fun _ => hfound.2⟩

theorem leads_eq_invalid {p : PtePtr} : s.leads p store = .invalid ↔ ¬ s.IsValid p := by
  unfold leads PteEntry.access IsValid
  split_ifs <;> simp_all

/-- An access that succeeds leads to the frame of the entry. -/
theorem leads_eq_page {p : PtePtr} {frame : Word} (h : s.leads p store = .page frame) :
    s.IsValid p ∧ frame = frameNumber (s.entryLO p) := by
  unfold leads PteEntry.access at h
  split_ifs at h with hvalid hdirty
  exact ⟨not_not.mp hvalid, (Access.page.inj h).symm⟩

/-- A page that is missing. -/
theorem access_invalid (hID : S.IsProcess ID) (hlo : SEG2 ≤ a)
    (h : (tables S s).access ID a store = .invalid) : Finds s a ∧ ¬ s.IsValid (pteOf ID a) := by
  rcases access_user store hID hlo with ⟨hfinds, heq⟩ | ⟨-, heq⟩
  · exact ⟨hfinds, leads_eq_invalid.mp (heq.symm.trans h)⟩
  · exact absurd (heq.symm.trans h) (by simp)

/-- A page that is there. -/
theorem access_page {frame : Word} (hID : S.IsProcess ID) (hlo : SEG2 ≤ a)
    (h : (tables S s).access ID a store = .page frame) :
    Finds s a ∧ s.Mapped ID a ∧ frame = s.pageAt ID a := by
  rcases access_user store hID hlo with ⟨hfinds, heq⟩ | ⟨-, heq⟩
  · obtain ⟨hvalid, hframe⟩ := leads_eq_page (heq.symm.trans h)
    refine ⟨hfinds, fun _ => hvalid, ?_⟩
    rw [pageAt, if_pos hlo]
    exact hframe
  · exact absurd (heq.symm.trans h) (by simp)

end Kaya
