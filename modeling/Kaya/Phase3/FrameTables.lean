import Kaya.Phase3.Script

open Exec Prog

namespace Kaya

open Code Phase3

variable {β : Type} {S : Setup} {s s' : Phase3 β} {ID : Word} {st : State} {ready : Bool} {i j : Nat}
  {p : PtePtr} {c c' : Paging β} {e : PagingEvent β}

namespace Phase3

/-- The frame is in use for the page of an entry. -/
def Holds (s : Phase3 β) (i : Nat) (p : PtePtr) : Prop := s.Occupied i ∧ (s.swapPool i).sw_pte = p

instance (s : Phase3 β) (i : Nat) (p : PtePtr) : Decidable (s.Holds i p) :=
  inferInstanceAs (Decidable (_ ∧ _))

/-- The swap pool and the page tables agree: a valid entry belongs to exactly one
frame in use and leads there, and the entry of a frame in use is valid and leads
to it. -/
structure TablesAgree (S : Setup) (s : Phase3 β) : Prop where
  entries : ∀ p, s.IsValid p → ∃ i < S.SWAPSIZE, s.Holds i p ∧
    frameNumber (s.entryLO p) = swapAddress S i ∧ ∀ j < S.SWAPSIZE, s.Holds j p → j = i
  frames : ∀ i < S.SWAPSIZE, s.Occupied i → s.IsValid (s.swapPool i).sw_pte ∧
    frameNumber (s.entryLO (s.swapPool i).sw_pte) = swapAddress S i

theorem entryLO_unmapped : (s.unmapped i).entryLO p =
    if p = (s.swapPool i).sw_pte then 0 else s.entryLO p := by
  by_cases hnull : (s.swapPool i).sw_pte = .null
  · rw [unmapped, hnull]
    split
    · rename_i hp
      rw [hp]
      rfl
    · rfl
  · exact entryLO_setEntryLO hnull

theorem nextFrame_lt : s.nextFrame S < S.SWAPSIZE := Nat.mod_lt _ S.frames

end Phase3

/-- What serving a page fault does to the tables. -/
structure Served (S : Setup) (ID a : Word) (s s' : Phase3 β) : Prop where
  swapPool : s'.swapPool = Function.update s.swapPool (s.nextFrame S) (swapEntry ID a)
  entryLO : ∀ p, s'.entryLO p =
    if p = pteOf ID a then frameEntry S (s.nextFrame S) a
    else if s.Holds (s.nextFrame S) p then 0 else s.entryLO p

theorem runs_served (hst : MissingPage st)
    (h : RunsAlone S ready ID (vmMemHandler S st ID) s (some ()) s') : Served S ID st.s_asid s s' := by
  obtain ⟨s₁, s₂, hevict, hread, rfl⟩ := runs_vmMemHandler hst h
  have hsame := runs_backing_sameTables hread
  have hevicted : s₁.swapPool = s.swapPool ∧ ∀ p, s₁.entryLO p =
      if s.Holds (s.nextFrame S) p then 0 else s.entryLO p := by
    rcases runs_evict hevict with ⟨hfree, rfl⟩ | ⟨hoccupied, hwrite⟩
    · exact ⟨rfl, fun p => by rw [if_neg fun hholds : s.Holds _ p => hfree hholds.1]; cases p <;> rfl⟩
    · have hsame := runs_backing_sameTables hwrite
      refine ⟨hsame.swapPool.trans (by simp [unmapped]), fun p => ?_⟩
      rw [hsame.entryLO, entryLO_unmapped]
      by_cases hp : p = (s.swapPool (s.nextFrame S)).sw_pte
      · rw [if_pos hp, if_pos ⟨hoccupied, hp.symm⟩]
      · rw [if_neg hp, if_neg fun hholds : s.Holds _ p => hp hholds.2.symm]
        cases p <;> rfl
  refine ⟨?_, fun p => ?_⟩
  · simp only [validated, setEntryLO_swapPool, hsame.swapPool, hevicted.1]
  · rw [validated, entryLO_setEntryLO pteOf_ne_null, ← hevicted.2 p, ← hsame.entryLO p]
    cases p <;> rfl

/-- Serving a fault on a page that no other frame holds. -/
theorem Phase3.TablesAgree.served (h : s.TablesAgree S) (hserved : Served S ID st.s_asid s s')
    (hother : ∀ j < S.SWAPSIZE, s.Holds j (pteOf ID st.s_asid) → j = s.nextFrame S)
    (hID : ID ≠ -1) : s'.TablesAgree S := by
  have hlt := nextFrame_lt (s := s) (S := S)
  have hnew : s'.Holds (s.nextFrame S) (pteOf ID st.s_asid) := by
    refine ⟨?_, ?_⟩
    · rw [Occupied, hserved.swapPool, Function.update_self]
      exact hID
    · rw [hserved.swapPool, Function.update_self]
      rfl
  have hold : ∀ j p, j ≠ s.nextFrame S → (s'.Holds j p ↔ s.Holds j p) := by
    intro j p hj
    simp [Holds, Occupied, hserved.swapPool, hj]
  have hentry : s'.entryLO (pteOf ID st.s_asid) = frameEntry S (s.nextFrame S) st.s_asid := by
    rw [hserved.entryLO, if_pos rfl]
  have hkept : ∀ p, p ≠ pteOf ID st.s_asid → ¬ s.Holds (s.nextFrame S) p →
      s'.entryLO p = s.entryLO p := by
    intro p hp hholds
    rw [hserved.entryLO, if_neg hp, if_neg hholds]
  refine ⟨fun p hvalid => ?_, fun i hi hoccupied => ?_⟩
  · by_cases hp : p = pteOf ID st.s_asid
    · subst hp
      refine ⟨s.nextFrame S, hlt, hnew, ?_, fun j hj hholds => ?_⟩
      · rw [hentry, frameNumber_frameEntry]
      · by_contra hne
        exact hne (hother j hj ((hold j _ hne).mp hholds))
    · have hvictim : ¬ s.Holds (s.nextFrame S) p := by
        intro hholds
        rw [IsValid, hserved.entryLO, if_neg hp, if_pos hholds] at hvalid
        exact absurd hvalid (by decide)
      rw [IsValid, hkept p hp hvictim] at hvalid
      obtain ⟨i, hi, hholds, hframe, hunique⟩ := h.entries p hvalid
      have hne : i ≠ s.nextFrame S := by
        rintro rfl
        exact hvictim hholds
      refine ⟨i, hi, (hold i p hne).mpr hholds, ?_, fun j hj hholds' => ?_⟩
      · rw [hkept p hp hvictim]
        exact hframe
      · by_cases hj' : j = s.nextFrame S
        · subst hj'
          exact absurd (hholds'.2.symm.trans hnew.2) hp
        · exact hunique j hj ((hold j p hj').mp hholds')
  · by_cases hnext : i = s.nextFrame S
    · subst hnext
      rw [hnew.2, IsValid, hentry]
      exact ⟨valid_frameEntry, frameNumber_frameEntry⟩
    · have hholds : s.Holds i (s'.swapPool i).sw_pte := (hold i _ hnext).mp ⟨hoccupied, rfl⟩
      obtain ⟨hvalid, hframe⟩ := h.frames i hi hholds.1
      rw [hholds.2] at hvalid hframe
      have hne : (s'.swapPool i).sw_pte ≠ pteOf ID st.s_asid := by
        intro hp
        exact hnext (hother i hi (hp ▸ hholds))
      have hvictim : ¬ s.Holds (s.nextFrame S) (s'.swapPool i).sw_pte := by
        intro hholds'
        obtain ⟨k, -, -, -, hunique⟩ := h.entries _ hvalid
        exact hnext ((hunique i hi hholds).trans (hunique _ hlt hholds').symm)
      rw [IsValid, hkept _ hne hvictim]
      exact ⟨hvalid, hframe⟩

/-- Changes to anything but the tables. -/
theorem Phase3.TablesAgree.congr (h : s.TablesAgree S)
    (hswap : ∀ j < S.SWAPSIZE, s'.swapPool j = s.swapPool j)
    (hentry : ∀ p, s'.entryLO p = s.entryLO p) : s'.TablesAgree S := by
  refine ⟨fun p hvalid => ?_, fun i hi hoccupied => ?_⟩
  · rw [IsValid, hentry] at hvalid
    obtain ⟨i, hi, hholds, hframe, hunique⟩ := h.entries p hvalid
    refine ⟨i, hi, ?_, hentry p ▸ hframe, fun j hj hholds' => hunique j hj ?_⟩
    · rwa [Holds, Occupied, hswap i hi]
    · rwa [Holds, Occupied, hswap j hj] at hholds'
  · rw [Occupied, hswap i hi] at hoccupied
    rw [hswap i hi, IsValid, hentry]
    exact h.frames i hi hoccupied

/-- No fault is served for a page that another frame than the next one holds by
then, and no process that ends owns a frame. -/
def Tidy (S : Setup) (c : Paging β) (e : PagingEvent β) (_ : Paging β) : Prop :=
  match e with
  | .serve ID _ => ∀ st, c.pending ID = some st → ∀ j < S.SWAPSIZE,
      c.shared.Holds j (pteOf ID st.s_asid) → j = c.shared.nextFrame S
  | .terminate ID => ∀ j < S.SWAPSIZE, (c.shared.swapPool j).sw_asid ≠ ID
  | _ => True

/-- The faults that have not been served are page faults of processes. -/
def Paging.Faults (S : Setup) (c : Paging β) : Prop :=
  ∀ ID st, c.pending ID = some st → S.IsProcess ID ∧ MissingPage st

theorem Paging.Faults.step (h : c.Faults S) (hstep : Paging.Step S c e c') : c'.Faults S := by
  have hupdate : ∀ {ID : Word} {x : Option State},
      (∀ st, x = some st → S.IsProcess ID ∧ MissingPage st) → ∀ ID' st,
      Function.update c.pending ID x ID' = some st → S.IsProcess ID' ∧ MissingPage st := by
    intro ID x hx ID' st hst
    by_cases hID : ID' = ID
    · subst hID
      rw [Function.update_self] at hst
      exact hx st hst
    · rw [Function.update_of_ne hID] at hst
      exact h ID' st hst
  cases hstep with
  | fault hrun hmissing _ _ =>
    exact hupdate fun st hst => Option.some.inj hst ▸ ⟨hrun.process, hmissing⟩
  | serve _ _ => exact hupdate nofun
  | store _ _ _ => exact h
  | terminate _ _ => exact h

theorem Phase3.TablesAgree.step (h : c.shared.TablesAgree S) (hfaults : c.Faults S)
    (hstep : Paging.Step S c e c') (htidy : Tidy S c e c') : c'.shared.TablesAgree S := by
  cases hstep with
  | fault _ _ _ _ => exact h
  | serve hpending hruns =>
    obtain ⟨hID, hmissing⟩ := hfaults _ _ hpending
    exact h.served (runs_served hmissing hruns) (htidy _ hpending) hID.ne_neg_one
  | store _ _ _ => exact h.congr (fun _ _ => rfl) fun p => by cases p <;> rfl
  | terminate _ hruns =>
    have hreleased := runs_meIRL hruns
    refine h.congr (fun j hj => ?_) fun p => ?_
    · exact (hreleased.frames j).resolve_right fun howned => htidy j hj howned.1
    · rw [hreleased.others]
      cases p <;> rfl

theorem Paging.Cold.tablesAgree (h : c.Cold S) : c.shared.TablesAgree S :=
  ⟨fun p hvalid => absurd hvalid (h.entries p), fun i hi hoccupied => absurd hoccupied (h.frames i hi)⟩

/-- In a tidy run the swap pool and the page tables agree. -/
theorem tablesAgree_of_run (h : ((pagingSystem β S).restrict (Tidy S)).Reachable c) :
    c.shared.TablesAgree S := by
  let I (c : Paging β) : Prop := c.shared.TablesAgree S ∧ c.Faults S
  have hinit : ∀ c, c.Cold S → I c := by
    refine fun c hcold => ⟨hcold.tablesAgree, fun ID st hst => ?_⟩
    exact absurd ((hcold.pending ID).symm.trans hst) nofun
  have hinv : I c := h.invariant hinit fun c e c' hinv hstep =>
    ⟨hinv.1.step hinv.2 hstep.1 hstep.2, hinv.2.step hstep.1⟩
  exact hinv.1

/-- Nothing has been paged in. -/
def coldPaging (x : β) : Paging β := ⟨.blank x, fun _ => none, fun _ => false⟩

theorem coldPaging_cold (x : β) : (coldPaging x).Cold .small := by
  refine ⟨fun i _ hoccupied => hoccupied rfl, fun p => ?_, fun _ => rfl⟩
  cases p with
  | null => exact (by decide : ¬ (0 : Word) &&& VALID = VALID)
  | kuSeg3 page => exact (by decide : ¬ (GLOBAL ||| DIRTY) &&& VALID = VALID)
  | uProc_pte ID page => exact (by decide : ¬ DIRTY &&& VALID = VALID)

instance (c : Paging β) (e : PagingEvent β) (c' : Paging β) : Decidable (Tidy S c e c') :=
  match e with
  | .fault _ _ => .isTrue trivial
  | .serve ID _ =>
    match h : c.pending ID with
    | none => .isTrue fun _ hst => absurd (h.symm.trans hst) nofun
    | some st => decidable_of_iff (∀ j < S.SWAPSIZE,
        c.shared.Holds j (pteOf ID st.s_asid) → j = c.shared.nextFrame S)
        ⟨fun hall st' hst' => by
          obtain rfl := Option.some.inj (h.symm.trans hst')
          exact hall, fun hall => hall st h⟩
  | .store _ _ _ => .isTrue trivial
  | .terminate ID => inferInstanceAs (Decidable (∀ j < S.SWAPSIZE, (c.shared.swapPool j).sw_asid ≠ ID))

/-- Two processes take the only frame in turns, and the one that has lost it ends. -/
def turnsPaging : Paging Unit :=
  (pagingScript Unit .small).play (coldPaging ())
    [.fault 1 firstFault, .serve 1 true, .fault 2 firstFault, .store 1 SEG2 (), .serve 2 true,
      .fault 1 firstFault, .serve 1 true, .terminate 2]

theorem turnsPaging_reachable :
    ((pagingSystem Unit .small).restrict (Tidy .small)).Reachable turnsPaging :=
  pagingScript_follows.restrict.reachable (.init (coldPaging_cold ())) (by decide +kernel)

theorem tablesAgree_of_run_small :
    turnsPaging.shared.IsValid (pteOf 1 SEG2) ∧ ¬ turnsPaging.shared.IsValid (pteOf 2 SEG2) ∧
      turnsPaging.shared.TablesAgree .small :=
  ⟨by decide +kernel, by decide +kernel, tablesAgree_of_run turnsPaging_reachable⟩

/-- The first process ends with its first page in the only frame. -/
theorem not_always_tablesAgree : ¬ ∀ (β : Type) (S : Setup) (c : Paging β),
    (pagingSystem β S).Reachable c → c.shared.TablesAgree S := by
  intro hall
  let events : List (PagingEvent Unit) := [.fault 1 firstFault, .serve 1 true, .terminate 1]
  let c := (pagingScript Unit .small).play (coldPaging ()) events
  have hreach : (pagingSystem Unit .small).Reachable c :=
    pagingScript_follows.reachable (.init (coldPaging_cold ())) (by decide +kernel)
  obtain ⟨i, hi, hholds, -⟩ := (hall _ _ _ hreach).entries (pteOf 1 SEG2) (by decide +kernel)
  obtain rfl : i = 0 := Nat.lt_one_iff.mp hi
  exact absurd hholds (by decide +kernel)

end Kaya
